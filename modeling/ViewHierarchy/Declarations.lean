/-! Declared views: the text of each body by name, in order of first declaration. -/
namespace ViewHierarchy

structure Declarations where
  entries : List (String × String)
  distinct : (entries.map Prod.fst).Nodup

namespace Declarations

def empty : Declarations := ⟨[], List.nodup_nil⟩

def names (ds : Declarations) : List String := ds.entries.map Prod.fst

def body? (ds : Declarations) (name : String) : Option String := ds.entries.lookup name

def setBody (name body : String) (entry : String × String) : String × String :=
  if entry.1 = name then (name, body) else entry

theorem map_fst_setBody (name body : String) (es : List (String × String)) :
    (es.map (setBody name body)).map Prod.fst = es.map Prod.fst := by
  rw [List.map_map]
  refine List.map_congr_left fun e _ => ?_
  by_cases h : e.1 = name
  · simp only [Function.comp_apply, setBody, h, if_true]
  · simp only [Function.comp_apply, setBody, h, if_false]

/-- Declares a view; a name declared before keeps its place and takes the new body. -/
def insert (ds : Declarations) (name body : String) : Declarations :=
  if h : name ∈ ds.names then
    ⟨ds.entries.map (setBody name body), by rw [map_fst_setBody]; exact ds.distinct⟩
  else
    ⟨ds.entries ++ [(name, body)], by
      rw [List.map_append, List.nodup_append]
      refine ⟨ds.distinct, List.nodup_cons.2 ⟨List.not_mem_nil, List.nodup_nil⟩, ?_⟩
      intro a ha b hb he
      rw [List.map_singleton, List.mem_singleton] at hb
      rw [he, hb] at ha
      exact h ha⟩

theorem names_insert (ds : Declarations) (name body : String) :
    (ds.insert name body).names = if name ∈ ds.names then ds.names else ds.names ++ [name] := by
  rw [insert]
  split
  · exact map_fst_setBody name body ds.entries
  · simp only [names, List.map_append, List.map_cons, List.map_nil]

def ofList (entries : List (String × String)) : Declarations :=
  entries.foldl (fun ds e => ds.insert e.1 e.2) empty

end Declarations

end ViewHierarchy
