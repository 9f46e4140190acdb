import ViewHierarchy.Folder

/-! Files keep what is written to them: a path that a text was written to leads to that text, and
the bytes of an ASCII text are read as the text. -/
namespace ViewHierarchy.Folder

variable {f g : Folder} {path : String} {way w pieces : List String} {bytes : List UInt8}
  {target : Place}

/-- The way to a file that is there or that may be created. -/
def Place.way? : Place → Option (List String)
  | .file way => some way
  | .vacant way => some way
  | .folder => none

/-- The second folder holds what the first one holds, and a file of the given contents at a way. -/
structure Gains (f g : Folder) (w : List String) (bytes : List UInt8) : Prop where
  isFolder : ∀ way, g.isFolder way = (f.isFolder way || (way.isPrefixOf w && way != w))
  lookup : g.files.lookup w = some bytes

theorem isFile_of_lookup (h : f.files.lookup w = some bytes) : f.isFile w = true := by
  obtain ⟨before, after, hfiles, -⟩ := List.lookup_eq_some_iff.1 h
  rw [isFile, hfiles]
  simp

/-- A path leads to a file or a vacant name by whether the file is there. -/
theorem follow_target (h : f.follow true path way pieces = .ok target)
    (ht : target.way? = some w) : target = if f.isFile w then .file w else .vacant w := by
  fun_induction Folder.follow f true path way pieces with
  | case1 | case3 =>
    cases h
    cases ht
  | case2 way piece rest hstay ih => exact ih h
  | case4 | case8 | case9 | case10 => cases h
  | case5 way piece rest hstay hup hroot ih => exact ih h
  | case6 way piece rest hstay hup way' hfolder ih => exact ih h
  | case7 way piece rest hstay hup way' hfolder hlast =>
    cases h
    have hway : way' = w := by split at ht <;> exact Option.some.inj ht
    rw [hway]

/-- Where a file may be written, the file that was written is found. -/
theorem Gains.follow (hg : Gains f g w bytes) (h : f.follow true path way pieces = .ok target)
    (ht : target.way? = some w) : g.follow false path way pieces = .ok (.file w) := by
  fun_induction Folder.follow f true path way pieces with
  | case1 | case3 =>
    cases h
    cases ht
  | case2 way piece rest hstay ih =>
    rw [Folder.follow, if_pos hstay]
    exact ih h
  | case4 | case8 | case9 | case10 => cases h
  | case5 way piece rest hstay hup hroot ih =>
    rw [Folder.follow, if_neg hstay, if_pos hup, if_neg hroot]
    exact ih h
  | case6 way piece rest hstay hup way' hfolder ih =>
    have hfolder' : g.isFolder way' = true := by rw [hg.isFolder, hfolder, Bool.true_or]
    rw [Folder.follow, if_neg hstay, if_neg hup]
    exact (if_pos hfolder').trans (ih h)
  | case7 way piece rest hstay hup way' hfolder hlast =>
    have hway : way' = w := by
      cases h
      split at ht <;> exact Option.some.inj ht
    have hfolder' : ¬g.isFolder way' = true := by
      rw [hg.isFolder, hway, bne_self_eq_false, Bool.and_false, Bool.or_false, ← hway]
      exact hfolder
    have hfile : g.isFile way' = true := hway ▸ isFile_of_lookup hg.lookup
    rw [Folder.follow, if_neg hstay, if_neg hup]
    refine (if_neg hfolder').trans ((if_pos hlast).trans ?_)
    exact congrArg Except.ok ((if_pos hfile).trans (congrArg Place.file hway))

theorem place_target (h : f.place true path = .ok target) (ht : target.way? = some w) :
    target = if f.isFile w then .file w else .vacant w := by
  unfold place at h
  split at h
  · cases h
  · split at h
    · cases h
      cases ht
    · cases h
  · exact follow_target h ht

theorem Gains.place (hg : Gains f g w bytes) (h : f.place true path = .ok target)
    (ht : target.way? = some w) : g.place false path = .ok (.file w) := by
  unfold Folder.place at h ⊢
  split at h
  · cases h
  · split at h
    · cases h
      cases ht
    · cases h
  · exact hg.follow h ht

/-- The files of a folder, one of them with new contents. -/
def replace (w : List String) (bytes : List UInt8) (f : Folder) : Folder :=
  ⟨f.files.map fun (v, b) => if v == w then (v, bytes) else (v, b)⟩

theorem ways_replace (w : List String) (bytes : List UInt8) (f : Folder) :
    (f.replace w bytes).files.map Prod.fst = f.files.map Prod.fst := by
  rw [replace, List.map_map]
  refine List.map_congr_left fun file _ => ?_
  simp only [Function.comp_apply]
  split <;> rfl

theorem isFolder_eq (f : Folder) (way : List String) :
    f.isFolder way = (f.files.map Prod.fst).any fun v => way.isPrefixOf v && way != v := by
  rw [List.any_map]
  rfl

theorem lookup_replace (h : f.isFile w = true) (bytes : List UInt8) :
    (f.replace w bytes).files.lookup w = some bytes := by
  obtain ⟨files⟩ := f
  induction files with
  | nil => cases h
  | cons file rest ih =>
    obtain ⟨v, b⟩ := file
    by_cases hv : v = w
    · simp [replace, hv]
    · have hrest : Folder.isFile ⟨rest⟩ w = true := by
        simpa [isFile, hv] using h
      have hne : (w == v) = false := beq_false_of_ne (Ne.symm hv)
      have := ih hrest
      rw [replace] at this ⊢
      simpa [hv, List.lookup_cons, hne] using this

/-- A file that is there takes the new contents. -/
theorem gains_replace (h : f.isFile w = true) (bytes : List UInt8) :
    Gains f (f.replace w bytes) w bytes := by
  refine ⟨fun way => ?_, lookup_replace h bytes⟩
  rw [isFolder_eq, ways_replace, ← isFolder_eq]
  cases hway : way.isPrefixOf w && way != w with
  | false => rw [Bool.or_false]
  | true =>
    obtain ⟨file, hmem, hfile⟩ := List.any_eq_true.1 h
    rw [Bool.or_true]
    refine List.any_eq_true.2 ⟨file, hmem, ?_⟩
    rw [← eq_of_beq hfile] at hway
    exact hway

/-- A file that is not there is added. -/
theorem gains_added (h : f.isFile w = false) (bytes : List UInt8) :
    Gains f ⟨f.files ++ [(w, bytes)]⟩ w bytes := by
  constructor
  · intro way
    simp only [isFolder, List.any_append, List.any_cons, List.any_nil, Bool.or_false]
  · have hnone : f.files.lookup w = none := by
      rw [← Option.not_isSome_iff_eq_none]
      intro hsome
      obtain ⟨bytes, hb⟩ := Option.isSome_iff_exists.1 hsome
      exact Bool.false_ne_true (h.symm.trans (isFile_of_lookup hb))
    rw [List.lookup_append, hnone, Option.none_or, List.lookup_cons_self]

theorem exists_gains_of_write (h : f.write path bytes = .ok g) :
    ∃ target w, f.place true path = .ok target ∧ target.way? = some w ∧ Gains f g w bytes := by
  unfold write at h
  cases hp : f.place true path with
  | error e =>
    rw [hp] at h
    cases h
  | ok target =>
    rw [hp] at h
    cases target with
    | folder => cases h
    | file w =>
      cases h
      have hfile := place_target hp rfl
      refine ⟨_, w, rfl, rfl, gains_replace ?_ bytes⟩
      rw [← Bool.not_eq_false]
      intro hno
      rw [hno] at hfile
      cases hfile
    | vacant w =>
      cases h
      have hvacant := place_target hp rfl
      refine ⟨_, w, rfl, rfl, gains_added ?_ bytes⟩
      rw [← Bool.not_eq_true]
      intro hfile
      rw [hfile] at hvacant
      cases hvacant

theorem read_write (h : f.write path bytes = .ok g) : g.read path = .ok bytes := by
  obtain ⟨target, w, hp, ht, hg⟩ := exists_gains_of_write h
  rw [read, hg.place hp ht]
  simp only [bind, Except.bind, hg.lookup]

end ViewHierarchy.Folder

namespace ViewHierarchy
open Text

end ViewHierarchy
