import Mathlib.Data.List.Basic

namespace Fishjoy.AddressLookup

-- A pointer into the buffer of a string is an offset.
def memchr (buffer : List UInt8) (c : UInt8) : Option Nat := buffer.findIdx? (· == c)

-- The first block: `node` and `service` behind "[v6]". Behind the last byte the
-- buffer holds a zero.
def ofBrackets (host : List UInt8) : List UInt8 × Option Nat :=
  if host.head? = some 91 then
    match (memchr (host.drop 1) 93).map (· + 1) with
    | some endipv6 =>
      ((host.drop 1).take (endipv6-1),if host.getD (endipv6+1) 0 = 58 then some (endipv6+2) else none)
    | none => ([],none)
  else ([],none)

-- The second block, which assigns to `service` in any case.
def ofColon (host : List UInt8) : List UInt8 × Option Nat :=
  match memchr host 58 with
  | some service =>
    if (memchr (host.drop (service+1)) 58).isNone then (host.take service,some (service+1)) else ([],some service)
  | none => ([],none)

-- The arguments of `getaddrinfo`.
def Lookup (host : List UInt8) : List UInt8 × Option (List UInt8) :=
  let (node,service) := ofBrackets host
  let (node,service) := if node.isEmpty then ofColon host else (node,service)
  (if node.isEmpty then host else node,service.map host.drop)

def NoBracket (s : List UInt8) : Prop := 91 ∉ s ∧ 93 ∉ s

def Plain (h : List UInt8) : Prop := h ≠ [] ∧ 58 ∉ h ∧ NoBracket h

variable {buffer front rest host h p v6 : List UInt8} {c : UInt8}

theorem Plain.head (plain : Plain h) : (h ++ rest).head? ≠ some 91 := by
  obtain ⟨full,_,noOpen,_⟩ := plain
  cases h with
  | nil => exact absurd rfl full
  | cons first h =>
      rw [List.mem_cons,not_or] at noOpen
      simpa using Ne.symm noOpen.1

theorem Plain.nonempty (plain : Plain h) : h.isEmpty = false := by
  simpa using plain.1

end Fishjoy.AddressLookup
