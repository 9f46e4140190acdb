import ViewHierarchy.Proofs.Source.Joining
import ViewHierarchy.Proofs.View.Ranking
import ViewHierarchy.Proofs.Window.Consistent

/-! What holds of the window in every state that the user can bring about: every action keeps the
window sound, and so do all actions in a row. -/
namespace ViewHierarchy

/-- A desktop with what its tree view was last filled with, and the last text that was read and not
blank. -/
structure Session where
  desktop : Desktop
  rows : List TreeRow
  lastRead : Option String

/-- The text that an action reads the declarations of. -/
def Desktop.readText? (d : Desktop) : Desktop.Action → Option String
  | .parse => some d.window.source
  | .pasteExample => some (d.window.editor.shown sampleSource)
  | .openFile path =>
    if path = "" then none
    else (d.folder.read path).toOption.map fun bytes =>
      d.window.editor.shown (String.ofList (sourceText bytes))
  | _ => none

theorem Desktop.openFile_cancelled (st : Settings) (d : Desktop) : d.openFile st "" =
    d.ofWindow (d.window, .ofDialog (.openFile "Open Swift file" "Swift (*.swift)")) := by
  rw [openFile, if_pos rfl]
  rfl

theorem Desktop.openFile_of_ne (st : Settings) {path : String} (h : path ≠ "") (d : Desktop) :
    d.openFile st path = d.ofWindow
      ((d.window.load st path (d.folder.read path)).1,
        (Effects.ofDialog (.openFile "Open Swift file" "Swift (*.swift)")).andThen
          (d.window.load st path (d.folder.read path)).2) := by
  rw [openFile, if_neg h]
  rfl

theorem Desktop.exportTree_window (path : String) (d : Desktop) :
    (d.exportTree path).1.window = d.window ∧ (d.exportTree path).2.refilled = false := by
  unfold exportTree
  split
  · exact ⟨rfl, rfl⟩
  · dsimp only
    split
    · exact ⟨rfl, rfl⟩
    · split <;> exact ⟨rfl, rfl⟩

/-- The rows of the tree view, filled anew or left as they are. -/
def Window.rowsAfter (st : Settings) (refilled : Bool) (rows : List TreeRow) (w : Window) :
    List TreeRow :=
  if refilled then w.rows st else rows

namespace Session

def start (editor : Editor) (folder : Folder) : Session := ⟨⟨.new editor, folder⟩, [], none⟩

/-- The last text that was read, after one more that is passed over if it is blank. -/
def lastReadAfter (text? lastRead : Option String) : Option String :=
  (text?.filter fun text => !isBlankText text).or lastRead

def act (st : Settings) (s : Session) (a : Desktop.Action) : Session :=
  let result := s.desktop.act st a
  ⟨result.1, result.1.window.rowsAfter st result.2.refilled s.rows,
    lastReadAfter (s.desktop.readText? a) s.lastRead⟩

/-- The sessions that actions lead to from the start; files change at any time. -/
inductive Reachable (st : Settings) : Session → Prop
  | start (editor : Editor) (folder : Folder) : Reachable st (start editor folder)
  | act {s : Session} (a : Desktop.Action) : Reachable st s → Reachable st (s.act st a)
  | files {s : Session} (folder : Folder) : Reachable st s →
      Reachable st { s with desktop := { s.desktop with folder } }

theorem lastReadAfter_blank {text : String} (h : isBlankText text = true)
    (lastRead : Option String) : lastReadAfter (some text) lastRead = lastRead := by
  rw [lastReadAfter, Option.filter_some, h]
  rfl

theorem lastReadAfter_not_blank {text : String} (h : isBlankText text = false)
    (lastRead : Option String) : lastReadAfter (some text) lastRead = some text := by
  rw [lastReadAfter, Option.filter_some, h]
  rfl

end Session

namespace Window

variable {st : Settings} {w w' : Window} {result : Window × Effects} {rows : List TreeRow}
  {lastRead : Option String}

/-- What the last text that was read declares. -/
def declared (lastRead : Option String) : Declarations :=
  (lastRead.map fun text => Source.declarations text.toList).getD .empty

theorem ne_empty_of_mem_declared {name : String} (h : name ∈ (declared lastRead).names) :
    name ≠ "" := by
  cases lastRead with
  | none => cases h
  | some text => exact ne_empty_of_mem_names h

/-- The window is consistent with itself, with the text that was read last, and with the tree
view. -/
structure Holds (st : Settings) (rows : List TreeRow) (lastRead : Option String) (w : Window) :
    Prop where
  consistent : w.IsConsistent st
  declarations : w.declarations = declared lastRead
  rows : rows = w.rows st

theorem holds_new (st : Settings) (editor : Editor) : Holds st [] none (new editor) :=
  ⟨isConsistent_new st editor, rfl, rfl⟩

theorem rows_congr (h : w'.items = w.items) : w'.rows st = w.rows st := by
  rw [Window.rows, Window.rows, h]

theorem rowsAfter_eq {refilled : Bool} (hrows : rows = w.rows st)
    (h : refilled = true ∨ w'.items = w.items) : w'.rowsAfter st refilled rows = w'.rows st := by
  rcases h with hrefilled | hitems
  · exact if_pos hrefilled
  · rw [rowsAfter, hrows, rows_congr hitems, ite_self]

theorem Holds.keeps (h : w.Holds st rows lastRead) (hk : Keeps w w') :
    w'.Holds st rows lastRead :=
  ⟨h.consistent.keeps hk, hk.declarations.trans h.declarations,
    h.rows.trans (rows_congr hk.items).symm⟩

/-- Whether the tree view is filled anew does not matter where the tree stays. -/
theorem Holds.looked (h : w.Holds st rows lastRead) (hk : Keeps w result.1) :
    result.1.Holds st (result.1.rowsAfter st result.2.refilled rows) lastRead := by
  have hkept := h.keeps hk
  rw [rowsAfter_eq h.rows (.inr hk.items)]
  exact ⟨hkept.consistent, hkept.declarations, rfl⟩

theorem Holds.parse {text : String} (h : w.Holds st rows lastRead) (htext : w.source = text) :
    (w.parse st).1.Holds st ((w.parse st).1.rowsAfter st (w.parse st).2.refilled rows)
      (Session.lastReadAfter (some text) lastRead) := by
  subst htext
  cases hblank : isBlankText w.source with
  | true =>
    have hne : noInput ≠ "" := by decide
    have hr : Rebuilds st w (w.parse st) := by
      rw [parse_blank hblank]
      exact (rebuilds_refuse { w with error := none } hne).of_error
    rw [Session.lastReadAfter_blank hblank, rowsAfter_eq h.rows hr.refilled]
    exact ⟨h.consistent.parse, hr.declarations.trans h.declarations, rfl⟩
  | false =>
    have hr : Rebuilds st (w.declare st) (w.parse st) := rebuilds_parse hblank
    rw [Session.lastReadAfter_not_blank hblank, rowsAfter_eq (w := w) h.rows hr.refilled]
    exact ⟨h.consistent.parse, hr.declarations, rfl⟩

theorem Holds.names_ne_empty (h : w.Holds st rows lastRead) :
    ∀ root ∈ w.declarations.names, root ≠ "" := by
  intro root hroot
  rw [h.declarations] at hroot
  exact ne_empty_of_mem_declared hroot

theorem Holds.pickRoot (h : w.Holds st rows lastRead) (name : String) :
    (w.pickRoot st name).1.Holds st
      ((w.pickRoot st name).1.rowsAfter st (w.pickRoot st name).2.refilled rows) lastRead := by
  have hr := rebuilds_pickRoot h.consistent name
  rw [rowsAfter_eq h.rows hr.refilled]
  exact ⟨hr.isConsistent (h.consistent.toOffers.picked h.names_ne_empty name),
    hr.declarations.trans h.declarations, rfl⟩

/-- The window shows nothing but what some declarations make of it, now and after any root is
picked. -/
structure ComesFrom (st : Settings) (read : Declarations) (w : Window) : Prop where
  declarations : w.declarations = read
  roots : w.roots = rootCandidates st read.names
  tree : ∀ tree, w.tree = some tree → ∃ root ∈ w.roots, buildTree st read root = some tree
  picked : ∀ name tree, (w.pickRoot st name).1.tree = some tree →
    ∃ root ∈ w.roots, buildTree st read root = some tree

theorem Holds.comesFrom (h : w.Holds st rows lastRead) : w.ComesFrom st (declared lastRead) where
  declarations := h.declarations
  roots := by rw [h.consistent.roots, h.declarations]
  tree tree htree := by
    obtain ⟨root, hroot, hbuild⟩ := h.consistent.tree tree htree
    rw [h.declarations] at hbuild
    exact ⟨root, h.consistent.mem_roots hroot, hbuild⟩
  picked name tree htree := by
    obtain ⟨root, hroot, hbuild⟩ := (rebuilds_pickRoot h.consistent name).tree tree htree
    have hoffers := h.consistent.toOffers.picked h.names_ne_empty name
    refine ⟨root, hoffers.mem_roots hroot, ?_⟩
    rw [← h.declarations]
    exact hbuild

/-- The window after a text is put into the editor and parsed. -/
def afterReading (st : Settings) (text : String) (file : Option String) (w : Window) : Window :=
  ({ w with source := text, file }.parse st).1

theorem Holds.afterReading (h : w.Holds st rows lastRead) (text : String) (file : Option String) :
    ∃ rows, (w.afterReading st text file).Holds st rows
      (Session.lastReadAfter (some text) lastRead) := by
  have hsource : { w with source := text, file }.Holds st rows lastRead :=
    h.keeps ⟨rfl, rfl, rfl, rfl, rfl, rfl⟩
  exact ⟨_, hsource.parse rfl⟩

/-- The declarations of a text that is parsed take the place of those from before, unless the text
is blank and there are some from before. -/
theorem Holds.comesFrom_afterReading_iff (h : w.Holds st rows lastRead) (text : String)
    (file : Option String) :
    (w.afterReading st text file).ComesFrom st (Source.declarations text.toList) ↔
      isBlankText text = false ∨ w.declarations = .empty := by
  obtain ⟨rows, hafter⟩ := h.afterReading text file
  have hfrom := hafter.comesFrom
  cases hblank : isBlankText text with
  | false =>
    rw [Session.lastReadAfter_not_blank hblank] at hfrom
    exact iff_of_true hfrom (.inl rfl)
  | true =>
    rw [Session.lastReadAfter_blank hblank, ← h.declarations] at hfrom
    rw [Source.declarations_blank (isBlankText_iff.1 hblank)]
    constructor
    · intro hempty
      exact .inr (hfrom.declarations.symm.trans hempty.declarations)
    · rintro (hfalse | hempty)
      · cases hfalse
      · rw [hempty] at hfrom
        exact hfrom

end Window

namespace Session

variable {st : Settings} {s : Session}

/-- The window of a session holds what the texts that were read and the tree view call for. -/
def IsSound (st : Settings) (s : Session) : Prop :=
  s.desktop.window.Holds st s.rows s.lastRead

/-- An action on the window keeps a session sound if what it makes of the window holds. -/
theorem IsSound.of_window {a : Desktop.Action} {result : Window × Effects} {text? : Option String}
    (hact : s.desktop.act st a = s.desktop.ofWindow result) (hread : s.desktop.readText? a = text?)
    (h : result.1.Holds st (result.1.rowsAfter st result.2.refilled s.rows)
      (lastReadAfter text? s.lastRead)) : (s.act st a).IsSound st := by
  rw [Session.act, hact, hread]
  exact h

theorem IsSound.pasteExample (h : s.IsSound st) : (s.act st .pasteExample).IsSound st := by
  have hact : s.desktop.act st .pasteExample =
      s.desktop.ofWindow ((s.desktop.window.setSource sampleSource).parse st) := by
    rw [Desktop.act]
  have hread : s.desktop.readText? .pasteExample =
      some (s.desktop.window.editor.shown sampleSource) := by rw [Desktop.readText?]
  -- The sample is of no importance here, and too long to be looked into.
  generalize sampleSource = text at hact hread
  have hsource : (s.desktop.window.setSource text).Holds st s.rows s.lastRead :=
    Window.Holds.keeps h (Window.keeps_setSource _ text)
  exact .of_window hact hread (hsource.parse rfl)

theorem IsSound.openFile (h : s.IsSound st) (path : String) :
    (s.act st (.openFile path)).IsSound st := by
  have hact : s.desktop.act st (.openFile path) = s.desktop.openFile st path := by rw [Desktop.act]
  by_cases hpath : path = ""
  · subst hpath
    have hread : s.desktop.readText? (.openFile "") = none := by rw [Desktop.readText?, if_pos rfl]
    exact .of_window (hact.trans (Desktop.openFile_cancelled st _)) hread h
  · have hread : s.desktop.readText? (.openFile path) = _ := if_neg hpath
    refine .of_window (hact.trans (Desktop.openFile_of_ne st hpath _)) hread ?_
    cases s.desktop.folder.read path with
    | error e => exact h
    | ok bytes =>
      have hfile := Window.Holds.keeps h (Window.keeps_file s.desktop.window (some path))
      exact (hfile.keeps (Window.keeps_setSource _ _)).parse rfl

theorem IsSound.exportTree (h : s.IsSound st) (path : String) :
    (s.act st (.exportTree path)).IsSound st := by
  have hwindow := Desktop.exportTree_window path s.desktop
  have hact : s.desktop.act st (.exportTree path) = s.desktop.exportTree path := by rw [Desktop.act]
  have hread : s.desktop.readText? (.exportTree path) = none := rfl
  rw [IsSound, Session.act, hact, hwindow.1, hwindow.2, hread]
  exact h

theorem IsSound.act (h : s.IsSound st) (a : Desktop.Action) : (s.act st a).IsSound st := by
  cases a with
  | type text => exact Window.Holds.keeps h (Window.keeps_setSource _ text)
  | parse => exact .of_window (by rw [Desktop.act]) rfl (Window.Holds.parse h rfl)
  | pasteExample => exact h.pasteExample
  | expandAll => exact h
  | collapseAll => exact h
  | search =>
    exact .of_window (by rw [Desktop.act]) rfl (Window.Holds.looked h (Window.keeps_search _))
  | searchFor text =>
    have hfield := Window.Holds.keeps h (Window.keeps_field s.desktop.window text)
    exact .of_window (by rw [Desktop.act]) rfl (hfield.looked (Window.keeps_search _))
  | pickRoot name => exact .of_window (by rw [Desktop.act]) rfl (Window.Holds.pickRoot h name)
  | select place => exact Window.Holds.keeps h (Window.keeps_select _ place)
  | openFile path => exact h.openFile path
  | exportTree path => exact h.exportTree path

/-- A root that is picked is selected. -/
theorem IsSound.selected_pickRoot (h : s.IsSound st) {name : String}
    (hroot : name ∈ s.desktop.window.roots) :
    (s.act st (.pickRoot name)).desktop.window.selected = some name := by
  have hpicked := Window.rebuilds_pickRoot h.consistent name
  exact hpicked.selected.trans (if_pos (List.contains_iff_mem.2 hroot))

theorem Reachable.isSound (h : s.Reachable st) : s.IsSound st := by
  induction h with
  | start editor folder => exact Window.holds_new st editor
  | act a _ ih => exact ih.act a
  | files folder _ ih => exact ih

/-- All that a reachable window shows comes from the last text that was read and not blank. Parsing
one more text makes it come from that text, unless the text is blank and views are declared. -/
theorem Reachable.comesFrom_iff (h : s.Reachable st) :
    s.desktop.window.ComesFrom st (Window.declared s.lastRead) ∧
      ∀ text file, (s.desktop.window.afterReading st text file).ComesFrom st
          (Source.declarations text.toList) ↔
        isBlankText text = false ∨ s.desktop.window.declarations = .empty :=
  ⟨h.isSound.comesFrom, h.isSound.comesFrom_afterReading_iff⟩

theorem window_type {text : String} (h : ∀ c ∈ text.toList, c ∉ Editor.respelled) :
    (s.act st (.type text)).desktop.window = { s.desktop.window with source := text } :=
  Window.setSource_eq h s.desktop.window

theorem lastRead_type {text : String} : (s.act st (.type text)).lastRead = s.lastRead := rfl

theorem window_parse : (s.act st .parse).desktop.window = (s.desktop.window.parse st).1 := rfl

theorem lastRead_parse :
    (s.act st .parse).lastRead = lastReadAfter (some s.desktop.window.source) s.lastRead := rfl

/-- A text is typed into an editor for plain text, and parsed. -/
def typed (text : String) : Session :=
  ((start .plain ⟨[]⟩).act .default (.type text)).act .default .parse

theorem typed_reachable (text : String) : (typed text).Reachable .default :=
  .act .parse (.act (.type text) (.start .plain ⟨[]⟩))

theorem window_typed {text : String} (h : ∀ c ∈ text.toList, c ∉ Editor.respelled) :
    (typed text).desktop.window = (Window.new .plain).afterReading .default text none := by
  rw [typed, window_parse, window_type h]
  rfl

theorem lastRead_typed {text : String} (h : ∀ c ∈ text.toList, c ∉ Editor.respelled)
    (hblank : isBlankText text = false) : (typed text).lastRead = some text := by
  rw [typed, lastRead_parse, window_type h]
  exact lastReadAfter_not_blank hblank none

/-- A view is typed and parsed. -/
def rowSession : Session := typed Source.rowText

theorem rowSession_reachable : rowSession.Reachable .default := typed_reachable Source.rowText

theorem rowText_not_respelled : ∀ c ∈ Source.rowText.toList, c ∉ Editor.respelled :=
  Editor.notMem_respelled (by decide)

theorem lastRead_rowSession : rowSession.lastRead = some Source.rowText :=
  lastRead_typed rowText_not_respelled (by decide)

theorem comesFrom_rowSession :
    rowSession.desktop.window.ComesFrom .default (Window.declared (some Source.rowText)) ∧
      (rowSession.desktop.window.afterReading .default Source.rowText none).ComesFrom .default
        (Source.declarations Source.rowText.toList) := by
  have hblank : isBlankText Source.rowText = false := by decide
  obtain ⟨hbefore, hafter⟩ := rowSession_reachable.comesFrom_iff
  rw [lastRead_rowSession] at hbefore
  exact ⟨hbefore, (hafter Source.rowText none).2 (.inl hblank)⟩

/-- Then the text is removed and the empty text is parsed. -/
def blankSession : Session := (rowSession.act .default (.type "")).act .default .parse

theorem blankSession_reachable : blankSession.Reachable .default :=
  .act .parse (.act (.type "") rowSession_reachable)

/-- The editor is empty, and the root selector still offers the view of the text before. -/
theorem blank_text_keeps_roots : blankSession.Reachable .default ∧
    blankSession.desktop.window.source = "" ∧
    Source.declarations blankSession.desktop.window.source.toList = .empty ∧
    "Row" ∈ blankSession.desktop.window.declarations.names ∧
    "Row" ∈ blankSession.desktop.window.roots := by
  have htyped : (rowSession.act .default (.type "")).desktop.window =
      { rowSession.desktop.window with source := "" } := window_type nofun
  have hblank : isBlankText "" = true := by decide
  have hsource : blankSession.desktop.window.source = "" := by
    rw [blankSession, window_parse, htyped, Window.parse_blank hblank]
    rfl
  have hread : blankSession.lastRead = some Source.rowText := by
    rw [blankSession, lastRead_parse, htyped, lastReadAfter_blank hblank, lastRead_type,
      lastRead_rowSession]
  have hfrom := blankSession_reachable.isSound.comesFrom
  rw [hread] at hfrom
  refine ⟨blankSession_reachable, hsource, ?_, ?_, ?_⟩
  · rw [hsource]
    exact Source.declarations_blank (isBlankText_iff.1 (by decide))
  · rw [hfrom.declarations]
    exact Source.mem_names_rowText
  · rw [hfrom.roots]
    exact mem_rootCandidates.2 Source.mem_names_rowText

/-- A reachable window is consistent, the tree view displays its tree, and whatever text that is not
blank is parsed next, the selected root stays selected if it is still declared and the first root is
selected otherwise. -/
theorem Reachable.window_consistent (h : s.Reachable st) :
    s.desktop.window.IsConsistent st ∧ s.desktop.window.Displays st s.rows ∧
      ∀ text file, isBlankText text = false →
        (∀ root, s.desktop.window.selected = some root → root ∈ Window.candidates st text →
          (s.desktop.window.afterReading st text file).selected = some root) ∧
        ((∀ root, s.desktop.window.selected = some root → root ∉ Window.candidates st text) →
          (s.desktop.window.afterReading st text file).selected =
            (Window.candidates st text).head?) := by
  refine ⟨h.isSound.consistent, ?_, ?_⟩
  · rw [h.isSound.rows]
    exact h.isSound.consistent.filled.displays st
  · intro text file hblank
    exact Window.selected_parse (w := { s.desktop.window with source := text, file }) hblank

/-- Two views are typed and parsed. -/
def pairSession : Session := typed Source.pairText

theorem pairSession_reachable : pairSession.Reachable .default := typed_reachable Source.pairText

theorem candidates_pairText : Window.candidates .default Source.pairText = ["Card", "Row"] := by
  rw [Window.candidates, Source.declarations_pairText]
  exact (rootCandidates_eq_of_perm (List.Perm.swap _ _ _)).trans (rootCandidates_pair (by decide))

theorem candidates_otherText : Window.candidates .default Source.otherText = ["A", "Card"] := by
  rw [Window.candidates, Source.declarations_otherText]
  exact (rootCandidates_eq_of_perm (List.Perm.swap _ _ _)).trans (rootCandidates_pair (by decide))

theorem pairText_not_respelled : ∀ c ∈ Source.pairText.toList, c ∉ Editor.respelled :=
  Editor.notMem_respelled (by decide)

theorem roots_pairSession : pairSession.desktop.window.roots = ["Card", "Row"] := by
  have hread : pairSession.lastRead = some Source.pairText :=
    lastRead_typed pairText_not_respelled (by decide)
  rw [pairSession_reachable.isSound.comesFrom.roots, hread]
  exact candidates_pairText

/-- Then the root is picked that is not the first one. -/
def pickedSession : Session := pairSession.act .default (.pickRoot "Row")

theorem pickedSession_reachable : pickedSession.Reachable .default :=
  .act (.pickRoot "Row") pairSession_reachable

theorem selected_pickedSession : pickedSession.desktop.window.selected = some "Row" := by
  apply pairSession_reachable.isSound.selected_pickRoot
  rw [roots_pairSession]
  decide

/-- The root stays selected when the views are parsed again, and gives way to the first root when it
is no longer declared. -/
theorem window_consistent_pickedSession :
    pickedSession.desktop.window.IsConsistent .default ∧
      pickedSession.desktop.window.Displays .default pickedSession.rows ∧
      pickedSession.desktop.window.selected = some "Row" ∧
      (pickedSession.desktop.window.afterReading .default Source.pairText none).selected =
        some "Row" ∧
      (pickedSession.desktop.window.afterReading .default Source.otherText none).selected =
        some "A" := by
  obtain ⟨hconsistent, hdisplays, hselected⟩ := pickedSession_reachable.window_consistent
  refine ⟨hconsistent, hdisplays, selected_pickedSession, ?_, ?_⟩
  · apply (hselected Source.pairText none (by decide)).1 "Row" selected_pickedSession
    rw [candidates_pairText]
    decide
  · refine ((hselected Source.otherText none (by decide)).2 ?_).trans ?_
    · intro root hroot
      cases selected_pickedSession.symm.trans hroot
      rw [candidates_otherText]
      decide
    · rw [candidates_otherText]
      rfl

end Session

end ViewHierarchy
