/-! The editor for the source text. The window relies on one thing only: what the editor gives back
for a text that it was given. -/
namespace ViewHierarchy

/-- The characters that an editor for plain text may give back as other ones: those that end a line
or a paragraph, bound a frame, or keep words together. The line feed is not among them. -/
def Editor.respelled : List Char := ['\r', '\u00a0', '\u2028', '\u2029', '\ufdd0', '\ufdd1']

structure Editor where
  /-- The text that it gives back for a text that it was given. -/
  shown : String → String
  shown_eq : ∀ text : String, (∀ c ∈ text.toList, c ∉ Editor.respelled) → shown text = text

namespace Editor

/-- An editor that gives back every text as it is. -/
def exact : Editor := ⟨id, fun _ _ => rfl⟩

def plainChar (c : Char) : Char :=
  if c = '\u00a0' then ' ' else if c ∈ respelled then '\n' else c

/-- A text with its lines kept apart by line feeds and its words by spaces. -/
def plainText : List Char → List Char
  | [] => []
  | '\r' :: '\n' :: rest => '\n' :: plainText rest
  | c :: rest => plainChar c :: plainText rest

theorem notMem_respelled {s : List Char} (h : s.all (!respelled.contains ·) = true) :
    ∀ c ∈ s, c ∉ respelled := by
  intro c hc hmem
  have hnot := List.all_eq_true.1 h c hc
  rw [List.contains_iff_mem.2 hmem] at hnot
  cases hnot

theorem plainChar_of_notMem {c : Char} (h : c ∉ respelled) : plainChar c = c := by
  have hspace : c ≠ '\u00a0' := by
    rintro rfl
    exact h (by decide)
  rw [plainChar, if_neg hspace, if_neg h]

theorem plainText_of_notMem {s : List Char} (h : ∀ c ∈ s, c ∉ respelled) : plainText s = s := by
  fun_induction plainText s with
  | case1 => rfl
  | case2 rest ih => exact absurd List.mem_cons_self (h '\r' List.mem_cons_self)
  | case3 c rest hne ih =>
    rw [plainChar_of_notMem (h c List.mem_cons_self),
      ih fun d hd => h d (List.mem_cons_of_mem c hd)]

def plain : Editor where
  shown text := String.ofList (plainText text.toList)
  shown_eq text h := by rw [plainText_of_notMem h, String.ofList_toList]

example : plain.shown "X\u2028Y" = "X\nY" := by decide

end Editor

end ViewHierarchy
