import ViewHierarchy.Source.Role

/-! Source text with its strings and comments blanked out, line breaks kept. -/
namespace ViewHierarchy.Source

def Marked.masked : Marked → Char
  | (c, .code) => c
  | (c, _) => if c = '\n' then '\n' else ' '

def mask (s : List Char) : List Char := (mark s).map Marked.masked

@[simp] theorem length_mask (s : List Char) : (mask s).length = s.length := by
  rw [mask, List.length_map, length_mark]

end ViewHierarchy.Source
