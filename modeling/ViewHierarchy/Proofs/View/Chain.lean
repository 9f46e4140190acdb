import ViewHierarchy.Proofs.Source.Closing
import ViewHierarchy.Proofs.Source.Locality
import ViewHierarchy.Proofs.View.Joining
import ViewHierarchy.Proofs.View.RoundTrip

/-! Conditionals with any number of alternatives. A condition may hold any text that closes its
round and square brackets, a block any text that fills its braces; reading finds each of them where
it was put and stops where the chain ends. -/
namespace ViewHierarchy
open Text Source

variable {clause : Clause} {others : List Clause} {otherwise : Option (List Char)}
  {rest : List Char}

/-- Round and square brackets are closed in order, and opening braces stand inside them only. The
closing brackets that are still missing are `due`, the next one first. -/
def closesInOrder : List Char → List Marked → Bool
  | due, [] => due.isEmpty
  | due, (c, .code) :: ms =>
    if c == '(' then closesInOrder (')' :: due) ms
    else if c == '[' then closesInOrder (']' :: due) ms
    else if c == ')' || c == ']' then due.head? == some c && closesInOrder due.tail ms
    else if c == '{' then !due.isEmpty && closesInOrder due ms
    else closesInOrder due ms
  | due, _ :: ms => closesInOrder due ms

/-- A condition goes on after such a text as if it began there. -/
theorem conditionLength?_closesInOrder {due : List Char} {ms : List Marked}
    (h : closesInOrder due ms = true) (ns : List Marked) :
    conditionLength? due.length (ms ++ ns) = (conditionLength? 0 ns).map (· + ms.length) := by
  fun_induction closesInOrder due ms with
  | case1 due =>
    rw [List.isEmpty_iff.1 h]
    simp
  | case2 due c ms hround ih =>
    have hopen : (c == '(' || c == '[') = true := by rw [hround, Bool.true_or]
    have hdepth : (due.length : Int) + 1 = (')' :: due).length := rfl
    rw [List.cons_append, conditionLength?, if_pos hopen, hdepth, ih h, Option.map_map]
    rfl
  | case3 due c ms hround hsquare ih =>
    have hopen : (c == '(' || c == '[') = true := by rw [hsquare, Bool.or_true]
    have hdepth : (due.length : Int) + 1 = (']' :: due).length := rfl
    rw [List.cons_append, conditionLength?, if_pos hopen, hdepth, ih h, Option.map_map]
    rfl
  | case4 due c ms hround hsquare hclose ih =>
    rw [Bool.and_eq_true, beq_iff_eq] at h
    obtain ⟨rest, rfl⟩ := List.head?_eq_some_iff.1 h.1
    have hdepth : ((c :: rest).length : Int) - 1 = (c :: rest).tail.length := by
      rw [List.length_cons, List.tail_cons]
      omega
    rw [List.cons_append, conditionLength?, if_neg (by simp [hround, hsquare]), if_pos hclose,
      hdepth, ih h.2, Option.map_map]
    rfl
  | case5 due c ms hround hsquare hclose hcurly ih =>
    rw [Bool.and_eq_true, Bool.not_eq_true', List.isEmpty_eq_false_iff] at h
    have hinside : due ≠ [] := h.1
    rw [List.cons_append, conditionLength?, if_neg (by simp [hround, hsquare]), if_neg hclose,
      if_neg (by simp [hinside]), ih h.2, Option.map_map]
    rfl
  | case6 due c ms hround hsquare hclose hcurly ih =>
    rw [List.cons_append, conditionLength?, if_neg (by simp [hround, hsquare]), if_neg hclose,
      if_neg (by simp [hcurly]), ih h, Option.map_map]
    rfl
  | case7 due m ms hrole ih =>
    rw [List.cons_append, conditionLength?, ih h, Option.map_map]
    · rfl
    · exact hrole

/-- A condition that leaves nothing open before the brace of its block, and a block that fills its
braces. -/
structure Clause.IsClosed (clause : Clause) : Prop where
  brackets : closesInOrder [] (mark clause.condition) = true
  literals : Closes clause.condition
  block : Fills '{' '}' clause.block

theorem conditionLength?_closed {condition : List Char}
    (hbrackets : closesInOrder [] (mark condition) = true) (hliterals : Closes condition)
    (block : List Char) :
    conditionLength? 0 (mark (condition ++ ' ' :: '{' :: block)) = some (condition.length + 1) := by
  have hseam := hliterals.seam_apart (d := ' ') (by decide) ('{' :: block)
  have hlength := conditionLength?_closesInOrder hbrackets (mark (' ' :: '{' :: block))
  rw [conditionLength?_brace, Option.map_some, length_mark, Nat.add_comm] at hlength
  rw [hseam.mark_append]
  exact hlength

theorem Clause.IsClosed.clause? (h : clause.IsClosed) (rest : List Char) :
    clause? (' ' :: (clause.condition ++ ' ' :: '{' :: (clause.block ++ '}' :: rest))) =
      some (⟨collapse clause.condition, clause.block⟩, rest) :=
  clause?_of_length (conditionLength?_closed h.brackets h.literals _) (h.block.enclosed? rfl rest)

/-- A conditional with one block as it is written. -/
def Clause.text (clause : Clause) : List Char :=
  ['i', 'f', ' '] ++ (clause.condition ++ ' ' :: '{' :: (clause.block ++ ['}']))

/-- The alternatives behind a block: more conditionals, and a last block if there is one. -/
def elseText : List Clause → Option (List Char) → List Char
  | [], none => []
  | [], some block => [' ', 'e', 'l', 's', 'e', ' '] ++ '{' :: (block ++ ['}'])
  | clause :: others, otherwise =>
    [' ', 'e', 'l', 's', 'e', ' '] ++ (clause.text ++ elseText others otherwise)

/-- A conditional whose block is followed by the given branches. -/
def Clause.node (st : Settings) (clause : Clause) (branches : List ViewNode) : ViewNode :=
  Conditional.nodeOf (collapse clause.condition)
    (.branch "Then" (parseBlock st clause.block) :: branches)

/-- The branch for the alternatives: the next conditional alone, or the views of the last block. -/
def elseBranch (st : Settings) : List Clause → Option (List Char) → List ViewNode
  | [], none => []
  | [], some block => [.branch "Else" (parseBlock st block)]
  | clause :: others, otherwise =>
    [.branch "Else" [clause.node st (elseBranch st others otherwise)]]

theorem Clause.text_append (clause : Clause) (rest : List Char) : clause.text ++ rest =
    'i' :: 'f' :: ' ' ::
      (clause.condition ++ ' ' :: '{' :: (clause.block ++ '}' :: rest)) := by
  simp [text]

theorem Clause.IsClosed.clause?_text (h : clause.IsClosed) (rest : List Char) :
    ViewHierarchy.clause? ((clause.text ++ rest).drop 2) =
      some (⟨collapse clause.condition, clause.block⟩, rest) := by
  rw [Clause.text_append]
  exact h.clause? rest

/-- A chain of conditionals is read to its end and not further. -/
theorem read?_elseText (st : Settings) (first : Clause) (others : List Clause)
    (otherwise : Option (List Char)) (rest : List Char)
    (hclauses : ∀ clause ∈ first :: others, clause.IsClosed)
    (hotherwise : ∀ block ∈ otherwise, Fills '{' '}' block)
    (hrest : startsWithWord "else".toList (dropTrivia rest) = false) :
    ∃ c, Conditional.read? (first.text ++ (elseText others otherwise ++ rest)) = some (c, rest) ∧
      c.node (parseBlock st) = first.node st (elseBranch st others otherwise) := by
  induction others generalizing first with
  | nil =>
    have hfirst := (hclauses first List.mem_cons_self).clause?_text
    cases otherwise with
    | none => exact ⟨_, read?_plain (hfirst _) (afterElse?_of_false hrest), rfl⟩
    | some block =>
      have hblock := (hotherwise block rfl).enclosed? rfl rest
      have hafter : afterElse? (elseText [] (some block) ++ rest) =
          some ('{' :: (block ++ '}' :: rest)) := by
        have htext : elseText [] (some block) ++ rest =
            [' ', 'e', 'l', 's', 'e', ' '] ++ '{' :: (block ++ '}' :: rest) := by
          simp [elseText]
        rw [htext]
        exact afterElse?_else (literal?_eq_none · (by decide) (by decide)) (by decide) _
      have hif : startsWithIf ('{' :: (block ++ '}' :: rest)) = false :=
        startsWithWord_append_cons (isWord_of_isIdentifier (by decide)) (by decide) [] _
      refine ⟨_, read?_alternative (hfirst _) hafter hif rfl hblock, ?_⟩
      rw [Conditional.node]
      rfl
  | cons next others ih =>
    obtain ⟨hfirst, hothers⟩ := List.forall_mem_cons.1 hclauses
    obtain ⟨c, hread, hnode⟩ := ih next hothers
    have hafter : afterElse? (elseText (next :: others) otherwise ++ rest) =
        some (next.text ++ (elseText others otherwise ++ rest)) := by
      rw [elseText, List.append_assoc, List.append_assoc, Clause.text_append]
      exact afterElse?_else (literal?_eq_none · (by decide) (by decide)) (by decide) _
    have hif : startsWithIf (next.text ++ (elseText others otherwise ++ rest)) = true := by
      rw [Clause.text_append]
      exact startsWithIf_write _
    refine ⟨_, read?_chain (hfirst.clause?_text _) hafter hif hread, ?_⟩
    rw [Conditional.node, hnode]
    rfl

/-- A conditional with a closure, a line break and a brace in a string before its block. -/
def closureClause : Clause := ⟨"f(\x7b $0 \x7d)\n== \"\x7b\"".toList, "A".toList⟩

theorem isClosed_closureClause : closureClause.IsClosed := ⟨by decide, by decide, by decide⟩

/-- The comment behind the last block belongs to what follows the chain. -/
theorem read?_elseText_closureClause :
    (∀ clause ∈ [closureClause, ⟨"b".toList, "B".toList⟩], clause.IsClosed) ∧
      Fills '{' '}' "C".toList ∧
      startsWithWord "else".toList (dropTrivia "// else\nD".toList) = false ∧
      ∃ c, Conditional.read? ("if f(\x7b $0 \x7d)\n== \"\x7b\" \x7bA\x7d".toList ++
          (" else if b \x7bB\x7d else \x7bC\x7d".toList ++ "// else\nD".toList)) =
            some (c, "// else\nD".toList) ∧
        c.node (parseBlock .default) = Conditional.nodeOf "f(\x7b $0 \x7d) == \"\x7b\"".toList
          [.branch "Then" [⟨"A", .view, [], [], []⟩],
            .branch "Else" [Conditional.nodeOf "b".toList
              [.branch "Then" [⟨"B", .view, [], [], []⟩],
                .branch "Else" [⟨"C", .view, [], [], []⟩]]]] := by
  have hclauses : ∀ clause ∈ [closureClause, ⟨"b".toList, "B".toList⟩], clause.IsClosed :=
    List.forall_mem_cons.2 ⟨isClosed_closureClause,
      List.forall_mem_singleton.2 ⟨by decide, by decide, by decide⟩⟩
  have hotherwise : Fills '{' '}' "C".toList := by decide
  have hrest : startsWithWord "else".toList (dropTrivia "// else\nD".toList) = false := by decide
  obtain ⟨c, hread, hnode⟩ := read?_elseText .default closureClause [⟨"b".toList, "B".toList⟩]
    (some "C".toList) "// else\nD".toList hclauses
    (by rintro block ⟨⟩; exact hotherwise) hrest
  have htext : closureClause.text = "if f(\x7b $0 \x7d)\n== \"\x7b\" \x7bA\x7d".toList := by decide
  have helse : elseText [⟨"b".toList, "B".toList⟩] (some "C".toList) =
      " else if b \x7bB\x7d else \x7bC\x7d".toList := by decide
  rw [htext, helse] at hread
  have hname : collapse closureClause.condition =
    "f(\x7b $0 \x7d) == \"\x7b\"".toList := by decide
  have hword : collapse "b".toList = "b".toList := by decide
  have hfirst : parseBlock .default closureClause.block = [⟨"A", .view, [], [], []⟩] :=
    parseBlock_name .default "A" (by decide)
  have hnext : parseBlock .default "B".toList = [⟨"B", .view, [], [], []⟩] :=
    parseBlock_name .default "B" (by decide)
  have hlast : parseBlock .default "C".toList = [⟨"C", .view, [], [], []⟩] :=
    parseBlock_name .default "C" (by decide)
  refine ⟨hclauses, hotherwise, hrest, c, hread, ?_⟩
  rw [hnode, Clause.node, hname]
  simp only [elseBranch, Clause.node, hword, hfirst, hnext, hlast]

end ViewHierarchy
