import ViewHierarchy.Proofs.Source.Extraction

/-! One map of declared views updated with another. -/
namespace ViewHierarchy.Declarations

variable {ds es : Declarations} {name body : String}

/-- Names that are declared keep their places and take the new bodies, new names follow in order. -/
def update (ds es : Declarations) : Declarations where
  entries := ds.entries.map (fun e => (e.1, (es.body? e.1).getD e.2)) ++
    es.entries.filter (·.1 ∉ ds.names)
  distinct := by
    rw [List.map_append, List.map_map, List.nodup_append]
    refine ⟨ds.distinct, (List.filter_sublist.map _).nodup es.distinct, ?_⟩
    rintro name hds _ hes rfl
    obtain ⟨e, he, rfl⟩ := List.mem_map.1 hes
    exact absurd hds (of_decide_eq_true (List.mem_filter.1 he).2)

theorem entries_update (ds es : Declarations) : (ds.update es).entries =
    ds.entries.map (fun e => (e.1, (es.body? e.1).getD e.2)) ++
      es.entries.filter (·.1 ∉ ds.names) := rfl

theorem update_empty (ds : Declarations) : ds.update .empty = ds := by
  apply ext_entries
  rw [entries_update]
  simp [body?, empty]

theorem mem_names_update : name ∈ (ds.update es).names ↔ name ∈ ds.names ∨ name ∈ es.names := by
  have hold : (ds.entries.map fun e => (e.1, (es.body? e.1).getD e.2)).map Prod.fst = ds.names := by
    rw [List.map_map]
    rfl
  have hnew : name ∈ (es.entries.filter (·.1 ∉ ds.names)).map Prod.fst ↔
      name ∈ es.names ∧ name ∉ ds.names := by
    simp only [names, List.mem_map, List.mem_filter, decide_eq_true_eq]
    constructor
    · rintro ⟨e, ⟨he, hn⟩, rfl⟩
      exact ⟨⟨e, he, rfl⟩, hn⟩
    · rintro ⟨⟨e, he, rfl⟩, hn⟩
      exact ⟨e, ⟨he, hn⟩, rfl⟩
  rw [names, entries_update, List.map_append, List.mem_append, hold, hnew]
  constructor
  · rintro (h | h)
    · exact .inl h
    · exact .inr h.1
  · intro h
    by_cases hn : name ∈ ds.names
    · exact .inl hn
    · exact .inr ⟨h.resolve_left hn, hn⟩

theorem map_setBody (body : String) {entries : List (String × String)}
    (h : name ∉ entries.map Prod.fst) : entries.map (setBody name body) = entries := by
  refine (List.map_congr_left ?_).trans (List.map_id entries)
  intro e he
  apply if_neg
  rintro rfl
  exact h (List.mem_map_of_mem he)

theorem lookup_of_ne {key other old : String} (h : other ≠ key) (entries : List (String × String)) :
    ((key, old) :: entries).lookup other = entries.lookup other := by
  rw [List.lookup_cons, beq_false_of_ne h]

theorem lookup_setBody (name body other : String) (entries : List (String × String)) :
    (entries.map (setBody name body)).lookup other =
      if other = name then (entries.lookup other).map fun _ => body else entries.lookup other := by
  induction entries with
  | nil => simp
  | cons e entries ih =>
    obtain ⟨key, old⟩ := e
    by_cases hkey : key = name
    · subst hkey
      by_cases hother : other = key
      · simp [setBody, hother]
      · simp [setBody, hother, ih, lookup_of_ne hother]
    · by_cases hother : other = key
      · simp [setBody, hother, hkey]
      · simp [setBody, hkey, ih, lookup_of_ne hother]

theorem body?_insert (ds : Declarations) (name body other : String) :
    (ds.insert name body).body? other = if other = name then some body else ds.body? other := by
  rw [body?, entries_insert, body?]
  by_cases hname : name ∈ ds.names
  · rw [if_pos hname, lookup_setBody]
    by_cases hother : other = name
    · subst hother
      obtain ⟨e, he, hfst⟩ := List.mem_map.1 hname
      cases hold : ds.entries.lookup other with
      | none => exact absurd hfst.symm (by simpa using List.lookup_eq_none_iff.1 hold e he)
      | some old => simp
    · simp only [if_neg hother]
  · rw [if_neg hname, List.lookup_append]
    by_cases hother : other = name
    · subst hother
      have hold : ds.entries.lookup other = none := by
        apply List.lookup_eq_none_iff.2
        intro e he
        apply bne_iff_ne.2
        rintro rfl
        exact hname (List.mem_map_of_mem he)
      simp [hold]
    · simp [hother, lookup_of_ne hother]

/-- What is declared anew in the second map is declared anew in the updated one. -/
theorem update_insert (ds es : Declarations) (name body : String) :
    ds.update (es.insert name body) = (ds.update es).insert name body := by
  have hold : ds.entries.map (fun e => (e.1, ((es.insert name body).body? e.1).getD e.2)) =
      (ds.entries.map fun e => (e.1, (es.body? e.1).getD e.2)).map (setBody name body) := by
    rw [List.map_map]
    apply List.map_congr_left
    intro e _
    rw [body?_insert, Function.comp_apply, setBody]
    split
    · next h => rw [h]; rfl
    · rfl
  have hfst : ∀ e : String × String, (setBody name body e).1 = e.1 := by
    intro e
    rw [setBody]
    split
    · next h => exact h.symm
    · rfl
  have hnew : (es.entries.map (setBody name body)).filter (·.1 ∉ ds.names) =
      (es.entries.filter (·.1 ∉ ds.names)).map (setBody name body) := by
    rw [List.filter_map]
    simp only [Function.comp_def, hfst]
  apply ext_entries
  rw [entries_update, hold, entries_insert, entries_insert, entries_update]
  by_cases hes : name ∈ es.names
  · rw [if_pos hes, if_pos (mem_names_update.2 (.inr hes)), hnew, List.map_append]
  · rw [if_neg hes, List.filter_append]
    by_cases hds : name ∈ ds.names
    · have hmem : name ∉ (es.entries.filter (·.1 ∉ ds.names)).map Prod.fst :=
        fun h => hes ((List.filter_sublist.map _).subset h)
      rw [if_pos (mem_names_update.2 (.inl hds)), List.map_append, map_setBody body hmem]
      simp [hds]
    · have hmem : name ∉ (ds.entries.map fun e => (e.1, (es.body? e.1).getD e.2)).map Prod.fst := by
        rw [List.map_map]
        exact hds
      rw [if_neg (fun h => (mem_names_update.1 h).elim hds hes), map_setBody body hmem]
      simp [hds]

end ViewHierarchy.Declarations
