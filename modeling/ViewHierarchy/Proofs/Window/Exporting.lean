import ViewHierarchy.CommandLine.Run
import ViewHierarchy.Proofs.Folder
import ViewHierarchy.Proofs.View.Resolution
import ViewHierarchy.Proofs.Window.Session

/-! The window and the command line agree: what the window exports is what a dump of the text that
was read last prints for the selected root. -/
namespace ViewHierarchy
open CommandLine

namespace Window

variable {st : Settings} {w : Window}

theorem tree_buildSelected {name : String} (h : w.selected = some name) :
    (w.buildSelected st).1.tree = buildTree st w.declarations name := by
  cases htree : buildTree st w.declarations name with
  | none =>
    simp only [buildSelected, h, htree]
    rfl
  | some tree =>
    simp only [buildSelected, h, htree]
    rfl

/-- The tree that is shown after a text was read. -/
theorem tree_parse (h : isBlankText w.source = false) :
    (w.parse st).1.tree =
      (w.declare st).selected.bind (buildTree st (w.declare st).declarations) := by
  obtain ⟨report, result, hparse, ⟨hroots, rfl⟩ | ⟨hroots, rfl⟩⟩ := parse_declare st h
  · rw [hparse]
    rcases (offers_declare st w).selection with ⟨-, hselected⟩ | ⟨root, hroot, -, -⟩
    · rw [hselected]
      rfl
    · rw [hroots] at hroot
      cases hroot
  · rw [hparse]
    rcases (offers_declare st w).selection with ⟨hnil, -⟩ | ⟨root, -, -, hselected⟩
    · exact absurd hnil hroots
    · rw [hselected]
      exact tree_buildSelected hselected

/-- A new window that reads a text shows the tree of the first root. -/
theorem tree_afterReading_new (st : Settings) (editor : Editor) (text : String)
    (file : Option String) (tree : ViewNode) :
    ((new editor).afterReading st text file).tree = some tree ↔
      isBlankText text = false ∧ ∃ name, (candidates st text).head? = some name ∧
        buildTree st (Source.declarations text.toList) name = some tree := by
  generalize hw : { new editor with source := text, file } = w
  have hread : (new editor).afterReading st text file = (w.parse st).1 :=
    congrArg (fun w => (parse st w).1) hw
  have hsource : w.source = text := by rw [← hw]
  have hfirst : (w.declare st).selected = (w.declare st).roots.head? := by
    rw [← hw]
    rfl
  rw [hread, ← hsource]
  cases hblank : isBlankText w.source with
  | true =>
    rw [parse_blank hblank]
    refine iff_of_false ?_ ?_
    · intro htree
      cases htree
    · rintro ⟨htext, -⟩
      cases htext
  | false =>
    rw [tree_parse hblank, hfirst, Option.bind_eq_some_iff]
    exact ⟨fun h => ⟨rfl, h⟩, And.right⟩

/-- A new window that has read a file. -/
def opened (editor : Editor) (st : Settings) (file : String) (bytes : List UInt8) : Window :=
  ((new editor).load st file (.ok bytes)).1

end Window

namespace Session

variable {st : Settings} {s : Session} {tree : ViewNode}

end Session

end ViewHierarchy
