/-!
# Reading UTF-8

A machine reads one octet at a time. Between characters it expects a first octet; inside a
character it knows how many octets are owed and between which bounds the next one lies. The first
octet that fits nowhere is reported together with the octets of its character before it.
-/
namespace NullSafeEq.Text.Utf8

inductive FaultKind where
  | startByte | continuationByte | endOfData
  deriving DecidableEq, Repr

def FaultKind.message : FaultKind → String
  | startByte => "invalid start byte"
  | continuationByte => "invalid continuation byte"
  | endOfData => "unexpected end of data"

/-- The octets from `start` up to `stop` form no character; `lead` is the first of them. -/
structure Fault where
  kind : FaultKind
  start : Nat
  stop : Nat
  lead : Nat
  deriving DecidableEq, Repr

/-- Two lower case hexadecimal digits. -/
def hexByte (n : Nat) : String :=
  String.ofList [Nat.digitChar (n / 16), Nat.digitChar (n % 16)]

def Fault.message (f : Fault) : String :=
  let place :=
    if f.stop = f.start + 1 then s!"byte 0x{hexByte f.lead} in position {f.start}"
    else s!"bytes in position {f.start}-{f.stop - 1}"
  s!"'utf-8' codec can't decode {place}: {f.kind.message}"

/-- A character of which some octets have been read. -/
structure Partial where
  start : Nat
  lead : Nat
  code : Nat
  owed : Nat
  least : Nat
  greatest : Nat
  deriving DecidableEq, Repr

/-- The state after the first octet of a character that is not ASCII. -/
def begin? (start b : Nat) : Option Partial :=
  if 0xc2 ≤ b && b ≤ 0xdf then some ⟨start, b, b - 0xc0, 1, 0x80, 0xbf⟩
  else if b = 0xe0 then some ⟨start, b, 0, 2, 0xa0, 0xbf⟩
  else if b = 0xed then some ⟨start, b, 0xd, 2, 0x80, 0x9f⟩
  else if 0xe1 ≤ b && b ≤ 0xef then some ⟨start, b, b - 0xe0, 2, 0x80, 0xbf⟩
  else if b = 0xf0 then some ⟨start, b, 0, 3, 0x90, 0xbf⟩
  else if b = 0xf4 then some ⟨start, b, 4, 3, 0x80, 0x8f⟩
  else if 0xf1 ≤ b && b ≤ 0xf3 then some ⟨start, b, b - 0xf0, 3, 0x80, 0xbf⟩
  else none

/-- Read octets from an offset on, within a character or between two; `soFar` is in reverse. -/
def decodeFrom (offset : Nat) (inside : Option Partial) (soFar : List Char) :
    List UInt8 → Except Fault (List Char)
  | [] =>
    match inside with
    | none => .ok soFar.reverse
    | some p => .error ⟨.endOfData, p.start, offset, p.lead⟩
  | octet :: rest =>
    let b := octet.toNat
    match inside with
    | none =>
      if b < 0x80 then decodeFrom (offset + 1) none (Char.ofNat b :: soFar) rest
      else
        match begin? offset b with
        | some p => decodeFrom (offset + 1) (some p) soFar rest
        | none => .error ⟨.startByte, offset, offset + 1, b⟩
    | some p =>
      if b < p.least || p.greatest < b then .error ⟨.continuationByte, p.start, offset, p.lead⟩
      else
        let code := p.code * 64 + (b - 0x80)
        if p.owed = 1 then decodeFrom (offset + 1) none (Char.ofNat code :: soFar) rest
        else
          decodeFrom (offset + 1) (some ⟨p.start, p.lead, code, p.owed - 1, 0x80, 0xbf⟩) soFar rest

/-- The fault of a reader that takes the last, unfinished character on its own: its positions count
from the first octet of that character. -/
def Fault.atTail (f : Fault) : Fault :=
  match f.kind with
  | .endOfData => { f with start := 0, stop := f.stop - f.start }
  | _ => f

/-- The octets of a text. -/
def encode (s : String) : List UInt8 := s.toList.flatMap String.utf8EncodeChar

/-- The text that a list of octets encodes. -/
def decode (octets : List UInt8) : Except Fault String :=
  (decodeFrom 0 none [] octets).map String.ofList

end NullSafeEq.Text.Utf8
