import DetBuilds.Lib.ByteMem

/-!
# Time zone files

The part of the TZif format that a reader of a version 2 file goes through: a header of 44 bytes
with six counts, the version 1 data block that it measures, a second header, the version 2 data
block, and a footer between newlines. The second header has no position of its own: it is found by
skipping what the first one says (`length_le_of_decode`).
-/

set_option autoImplicit false

namespace TZif

/-- A big-endian number. -/
def be (bs : List Byte) : Nat := bs.foldl (fun n b => 256 * n + b.toNat) 0

def magic : List Byte := [0x54, 0x5a, 0x69, 0x66]

/-- The version byte of the second version, the digit 2. -/
def version2 : Byte := 0x32

def newline : Byte := 0x0a

/-- The counts of a header. -/
structure Counts where
  isutcnt : Nat
  isstdcnt : Nat
  leapcnt : Nat
  timecnt : Nat
  typecnt : Nat
  charcnt : Nat

/-- There is a type with a designation, and indicators are there for every type or for none. -/
def Counts.Valid (c : Counts) : Prop :=
  c.typecnt ≠ 0 ∧ c.charcnt ≠ 0 ∧ (c.isutcnt = 0 ∨ c.isutcnt = c.typecnt) ∧
    (c.isstdcnt = 0 ∨ c.isstdcnt = c.typecnt)

instance (c : Counts) : Decidable c.Valid := inferInstanceAs (Decidable (_ ∧ _))

/-- The length of the data block, with times of `timeSize` bytes. -/
def Counts.blockLength (c : Counts) (timeSize : Nat) : Nat :=
  c.timecnt * timeSize + c.timecnt + c.typecnt * 6 + c.charcnt + c.leapcnt * (timeSize + 4) +
    c.isstdcnt + c.isutcnt

structure Header where
  version : Byte
  counts : Counts
  valid : counts.Valid

def headerLength : Nat := 44

/-- The counts, behind the magic, the version and 15 bytes that are not used. -/
def parseCounts (bs : List Byte) : Counts where
  isutcnt := be ((bs.drop 20).take 4)
  isstdcnt := be ((bs.drop 24).take 4)
  leapcnt := be ((bs.drop 28).take 4)
  timecnt := be ((bs.drop 32).take 4)
  typecnt := be ((bs.drop 36).take 4)
  charcnt := be ((bs.drop 40).take 4)

/-- A header and what follows it. -/
def parseHeader (bs : List Byte) : Option (Header × List Byte) :=
  if hv : (parseCounts bs).Valid then
    if headerLength ≤ bs.length ∧ bs.take 4 = magic then
      some (⟨bs.getD 4 0, parseCounts bs, hv⟩, bs.drop headerLength)
    else none
  else none

/-- The first `n` bytes and what follows them. -/
def split (bs : List Byte) (n : Nat) : Option (List Byte × List Byte) :=
  if n ≤ bs.length then some (bs.take n, bs.drop n) else none

/-- A header of the second version and the data block behind it. -/
def parsePart (timeSize : Nat) (bs : List Byte) : Option (Counts × List Byte × List Byte) :=
  (parseHeader bs).bind fun (hd, rest) =>
    if hd.version = version2 then
      (split rest (hd.counts.blockLength timeSize)).map fun (block, rest) =>
        (hd.counts, block, rest)
    else none

structure LocalTimeType where
  utoff : Int
  isdst : Byte
  desigidx : Nat

structure Zone where
  types : List LocalTimeType
  designations : List Byte
  footer : List Byte

def parseType (bs : List Byte) : LocalTimeType where
  utoff := (BitVec.ofNat 32 (be (bs.take 4))).toInt
  isdst := bs.getD 4 0
  desigidx := (bs.getD 5 0).toNat

/-- The text between two newlines. -/
def parseFooter : List Byte → Option (List Byte)
  | [] => none
  | b :: rest =>
    let text := rest.takeWhile (· ≠ newline)
    if b = newline ∧ text.length < rest.length then some text else none

/-- The zone of a version 2 file. -/
def decode (bs : List Byte) : Option Zone :=
  (parsePart 4 bs).bind fun (_, _, rest) =>
    (parsePart 8 rest).bind fun (c, block, rest) =>
      (parseFooter rest).map fun footer =>
        let types := block.drop (c.timecnt * 9)
        { types := (List.range c.typecnt).map fun i => parseType (types.drop (6 * i))
          designations := (types.drop (6 * c.typecnt)).take c.charcnt
          footer := footer }

/-- The abbreviation of a type, up to its terminator. -/
def Zone.abbreviation (z : Zone) (t : LocalTimeType) : List Byte :=
  (z.designations.drop t.desigidx).takeWhile (· ≠ 0)

/-! ## What a reader needs -/

theorem length_of_split {bs block rest : List Byte} {n : Nat}
    (hs : split bs n = some (block, rest)) : bs.length = n + rest.length := by
  unfold split at hs
  split at hs
  · cases hs
    rw [List.length_drop]
    omega
  · cases hs

/-- A part is as long as its header says, whose counts are at their place. -/
theorem length_of_parsePart {timeSize : Nat} {bs block rest : List Byte} {c : Counts}
    (hp : parsePart timeSize bs = some (c, block, rest)) :
    c = parseCounts bs ∧ bs.length = headerLength + c.blockLength timeSize + rest.length := by
  obtain ⟨⟨hd, rest₁⟩, hh, hp⟩ := Option.bind_eq_some_iff.1 hp
  unfold parseHeader at hh
  split at hh
  · split at hh
    · rename_i hlen
      cases hh
      simp only at hp
      split at hp
      · obtain ⟨⟨block', rest'⟩, hs, heq⟩ := Option.map_eq_some_iff.1 hp
        simp only [Prod.mk.injEq] at heq
        obtain ⟨rfl, rfl, rfl⟩ := heq
        have hsplit := length_of_split hs
        rw [List.length_drop] at hsplit
        exact ⟨rfl, by omega⟩
      · cases hp
    · cases hh
  · cases hh

/-- **A file that decodes has room for what its first header announces**, and for a second
header behind it. -/
theorem length_le_of_decode {bs : List Byte} {z : Zone} (hd : decode bs = some z) :
    headerLength + (parseCounts bs).blockLength 4 + headerLength ≤ bs.length := by
  obtain ⟨⟨c₁, block₁, rest₁⟩, h₁, hd⟩ := Option.bind_eq_some_iff.1 hd
  obtain ⟨⟨c₂, block₂, rest₂⟩, h₂, -⟩ := Option.bind_eq_some_iff.1 hd
  obtain ⟨rfl, hlen₁⟩ := length_of_parsePart h₁
  obtain ⟨-, hlen₂⟩ := length_of_parsePart h₂
  omega

end TZif
