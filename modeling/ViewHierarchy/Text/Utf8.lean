/-! UTF-8: reading strictly, and reading with every byte left out that belongs to no character. -/
namespace ViewHierarchy.Text.Utf8

/-- The six bits of a continuation byte. -/
def tail? (b : UInt8) : Option Nat :=
  if 0x80 ≤ b.toNat ∧ b.toNat < 0xC0 then some (b.toNat - 0x80) else none

/-- The character of a code point that is at least `least` and no surrogate. -/
def scalar? (least n : Nat) : Option Char :=
  if least ≤ n ∧ n.isValidChar then some (Char.ofNat n) else none

/-- The character that a byte sequence starts with, in its shortest form. -/
def first? : List UInt8 → Option (Char × List UInt8)
  | [] => none
  | a :: rest =>
    let n := a.toNat
    if n < 0x80 then some (Char.ofNat n, rest)
    else if n < 0xC0 then none
    else if n < 0xE0 then
      match rest with
      | b :: rest => do
        let x ← tail? b
        let c ← scalar? 0x80 ((n - 0xC0) * 64 + x)
        return (c, rest)
      | _ => none
    else if n < 0xF0 then
      match rest with
      | b :: b' :: rest => do
        let x ← tail? b
        let y ← tail? b'
        let c ← scalar? 0x800 (((n - 0xE0) * 64 + x) * 64 + y)
        return (c, rest)
      | _ => none
    else if n < 0xF8 then
      match rest with
      | b :: b' :: b'' :: rest => do
        let x ← tail? b
        let y ← tail? b'
        let z ← tail? b''
        let c ← scalar? 0x10000 ((((n - 0xF0) * 64 + x) * 64 + y) * 64 + z)
        return (c, rest)
      | _ => none
    else none

theorem first?_length_lt {bytes rest : List UInt8} {c : Char} (h : first? bytes = some (c, rest)) :
    rest.length < bytes.length := by
  cases bytes with
  | nil => cases h
  | cons a bytes =>
    simp only [first?] at h
    split at h
    · cases h
      exact Nat.lt_succ_self _
    · split at h
      · cases h
      · split at h
        · split at h
          · obtain ⟨_, _, h⟩ := Option.bind_eq_some_iff.1 h
            obtain ⟨_, _, h⟩ := Option.bind_eq_some_iff.1 h
            cases h
            simp only [List.length_cons]
            omega
          · cases h
        · split at h
          · split at h
            · obtain ⟨_, _, h⟩ := Option.bind_eq_some_iff.1 h
              obtain ⟨_, _, h⟩ := Option.bind_eq_some_iff.1 h
              obtain ⟨_, _, h⟩ := Option.bind_eq_some_iff.1 h
              cases h
              simp only [List.length_cons]
              omega
            · cases h
          · split at h
            · split at h
              · obtain ⟨_, _, h⟩ := Option.bind_eq_some_iff.1 h
                obtain ⟨_, _, h⟩ := Option.bind_eq_some_iff.1 h
                obtain ⟨_, _, h⟩ := Option.bind_eq_some_iff.1 h
                obtain ⟨_, _, h⟩ := Option.bind_eq_some_iff.1 h
                cases h
                simp only [List.length_cons]
                omega
              · cases h
            · cases h

/-- The text of a byte sequence that is UTF-8 throughout. -/
def decode? (bytes : List UInt8) : Option (List Char) :=
  match h : first? bytes with
  | some (c, rest) =>
    have := first?_length_lt h
    (decode? rest).map (c :: ·)
  | none => if bytes.isEmpty then some [] else none
termination_by bytes.length

/-- The text of a byte sequence, bytes that belong to no character left out. -/
def decodeLossy (bytes : List UInt8) : List Char :=
  match h : first? bytes with
  | some (c, rest) =>
    have := first?_length_lt h
    c :: decodeLossy rest
  | none =>
    match bytes with
    | [] => []
    | _ :: rest => decodeLossy rest
termination_by bytes.length

end ViewHierarchy.Text.Utf8

namespace ViewHierarchy.Text

/-- A text with every line ended by a line feed, whatever ended it before. -/
def normalizeNewlines : List Char → List Char
  | [] => []
  | '\r' :: '\n' :: rest => '\n' :: normalizeNewlines rest
  | '\r' :: rest => '\n' :: normalizeNewlines rest
  | c :: rest => c :: normalizeNewlines rest

end ViewHierarchy.Text
