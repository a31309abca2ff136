import ProcedureGen.Text

/-!
# UTF-8

* `Utf8.encode`: the bytes of a text;
* `Utf8.decode?`: the text of bytes, if they are one.

Each character has one form only: the shortest one.
-/

namespace ProcedureGen

namespace Utf8

def encode (t : Text) : List UInt8 := t.flatMap String.utf8EncodeChar

/-- The six low bits of a byte that continues a character. -/
def continuation? (b : UInt8) : Option Nat :=
  if 0x80 ≤ b.toNat ∧ b.toNat < 0xC0 then some (b.toNat - 0x80) else none

/-- The character with a code point that is at least `least`. -/
def char? (least code : Nat) : Option Char :=
  if h : least ≤ code ∧ code.isValidChar then some (Char.ofNatAux code h.2) else none

/-- The text of which the bytes are the form. -/
def decode? : List UInt8 → Option Text
  | [] => some []
  | a :: rest =>
    if a.toNat < 0x80 then do
      return (← char? 0 a.toNat) :: (← decode? rest)
    else if a.toNat < 0xC0 then none
    else match rest with
      | [] => none
      | b :: rest =>
        if a.toNat < 0xE0 then do
          let c ← char? 0x80 ((a.toNat - 0xC0) * 0x40 + (← continuation? b))
          return c :: (← decode? rest)
        else match rest with
          | [] => none
          | c :: rest =>
            if a.toNat < 0xF0 then do
              let c ← char? 0x800
                (((a.toNat - 0xE0) * 0x40 + (← continuation? b)) * 0x40 + (← continuation? c))
              return c :: (← decode? rest)
            else match rest with
              | [] => none
              | d :: rest => do
                let c ← char? 0x10000
                  ((((a.toNat - 0xF0) * 0x40 + (← continuation? b)) * 0x40 +
                    (← continuation? c)) * 0x40 + (← continuation? d))
                return c :: (← decode? rest)

end Utf8

end ProcedureGen
