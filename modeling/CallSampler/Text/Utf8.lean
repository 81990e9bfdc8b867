/-!
# UTF-8

Decoding of bytes. A malformed sequence ends where the next byte could no longer continue a
character, and a lossy decoder writes one replacement character for it.
-/

namespace CallSampler.Utf8

def within (low high : Nat) (b : UInt8) : Bool := low ≤ b.toNat && b.toNat ≤ high

/-- The range of the byte after a leading byte of a three- or four-byte sequence. -/
def secondRange (lead : UInt8) : Nat × Nat :=
  if lead = 0xE0 then (0xA0, 0xBF)
  else if lead = 0xED then (0x80, 0x9F)
  else if lead = 0xF0 then (0x90, 0xBF)
  else if lead = 0xF4 then (0x80, 0x8F)
  else (0x80, 0xBF)

/-- The low six bits of a continuation byte. -/
def payload (b : UInt8) : Nat := b.toNat % 64

/-- Decode bytes. A malformed sequence becomes `none`. -/
def decode : List UInt8 → List (Option Char)
  | [] => []
  | a :: rest =>
    if a.toNat < 0x80 then some (Char.ofNat a.toNat) :: decode rest
    else if within 0xC2 0xDF a then
      match rest with
      | b :: rest' =>
        if within 0x80 0xBF b then
          some (Char.ofNat ((a.toNat % 32) * 64 + payload b)) :: decode rest'
        else none :: decode (b :: rest')
      | [] => [none]
    else if within 0xE0 0xEF a then
      match rest with
      | b :: rest' =>
        if within (secondRange a).1 (secondRange a).2 b then
          match rest' with
          | c :: rest'' =>
            if within 0x80 0xBF c then
              some (Char.ofNat (((a.toNat % 16) * 64 + payload b) * 64 + payload c)) ::
                decode rest''
            else none :: decode (c :: rest'')
          | [] => [none]
        else none :: decode (b :: rest')
      | [] => [none]
    else if within 0xF0 0xF4 a then
      match rest with
      | b :: rest' =>
        if within (secondRange a).1 (secondRange a).2 b then
          match rest' with
          | c :: rest'' =>
            if within 0x80 0xBF c then
              match rest'' with
              | d :: rest''' =>
                if within 0x80 0xBF d then
                  some (Char.ofNat
                    ((((a.toNat % 8) * 64 + payload b) * 64 + payload c) * 64 + payload d)) ::
                      decode rest'''
                else none :: decode (d :: rest''')
              | [] => [none]
            else none :: decode (c :: rest'')
          | [] => [none]
        else none :: decode (b :: rest')
      | [] => [none]
    else none :: decode rest
termination_by bytes => bytes.length

/-- The text that bytes spell, if they are well formed. -/
def text? (bytes : List UInt8) : Option String :=
  ((decode bytes).mapM id).map String.ofList

/-- The text that bytes spell, each malformed sequence replaced. -/
def lossy (bytes : List UInt8) : String :=
  String.ofList ((decode bytes).map fun c => c.getD '\uFFFD')

def size (s : String) : Nat := s.utf8ByteSize

end CallSampler.Utf8
