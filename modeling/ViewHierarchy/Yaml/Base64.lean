import ViewHierarchy.Yaml.Fault

/-! Binary values in YAML documents, given in base 64. -/
namespace ViewHierarchy.Yaml.Base64

def isDigit (c : Char) : Bool := c.isAlphanum || c == '+' || c == '/'

/-- Whether the digits come in complete groups of four. A group of two or three digits may be
completed by equals signs, which ends the value; other characters do not count. -/
def isComplete (digits pads : Nat) : List Char → Bool
  | [] => digits == 0
  | c :: rest =>
    if c = '=' then
      if digits ≥ 2 then
        if digits + pads + 1 ≥ 4 then true else isComplete digits (pads + 1) rest
      else isComplete digits pads rest
    else if isDigit c then isComplete ((digits + 1) % 4) 0 rest
    else isComplete digits pads rest

def check (s : List Char) : Except Fault Unit :=
  if s.all (·.toNat < 128) && isComplete 0 0 s then .ok () else .error .construction

end ViewHierarchy.Yaml.Base64
