import Forwarder.Bytes

/-!
# Decompression

`inflate` undoes the compression that archives use for their members: blocks of bytes, and blocks of
codes of varying length that stand for bytes or for a repetition of what was written before. Every
step of a block takes at least one bit, so the number of bits bounds the number of steps.
-/

namespace Forwarder.Inflate

/-- What is left to read, by the number of the next bit, and what has been written. -/
structure State where
  input : Array UInt8
  bit : Nat
  output : Array UInt8

/-- A step of decompression, which may find the input malformed. -/
abbrev Step := StateT State Option

/-- The next bit; the bits of a byte are read from the lowest on. -/
def readBit : Step Nat := fun s =>
  match s.input[s.bit / 8]? with
  | some b => some ((b.toNat.testBit (s.bit % 8)).toNat, { s with bit := s.bit + 1 })
  | none => none

/-- A number of some bits, the lowest first. -/
def readBits : Nat → Step Nat
  | 0 => return 0
  | n + 1 => do
    let low ← readBit
    return low + 2 * (← readBits n)

/-- Appends a byte to the output. -/
def write (b : UInt8) : Step Unit := fun ⟨input, bit, output⟩ =>
  some ((), ⟨input, bit, output.push b⟩)

/-- Appends as many bytes as asked, each a copy of the one `distance` before it. -/
def copy (distance : Nat) : Nat → Step Unit
  | 0 => return ()
  | n + 1 => do
    let s ← get
    if distance = 0 ∨ s.output.size < distance then failure
    match s.output[s.output.size - distance]? with
    | some b =>
      write b
      copy distance n
    | none => failure

/-- A code: how many of its words have each length, and the symbols in the order of their words. -/
structure Code where
  counts : Array Nat
  symbols : Array Nat

/-- The greatest length of a word. -/
def maxLength : Nat := 15

/-- The code in which each symbol has a word of a given length; length 0 stands for no word. -/
def Code.ofLengths (lengths : List Nat) : Code where
  counts := ((List.range (maxLength + 1)).map fun n => if n = 0 then 0 else lengths.count n).toArray
  symbols :=
    ((List.range maxLength).flatMap fun n =>
      (lengths.zipIdx.filter fun p => p.1 = n + 1).map Prod.snd).toArray

/-- The symbol of the next word. Among words of one length, `first` is the lowest and `index` its
symbol's place; `word` is what has been read. -/
def Code.readFrom (c : Code) (length word first index : Nat) : (left : Nat) → Step Nat
  | 0 => failure
  | left + 1 => do
    let word := word + (← readBit)
    let count := c.counts.getD length 0
    if word < first + count then
      match c.symbols[index + (word - first)]? with
      | some symbol => return symbol
      | none => failure
    else c.readFrom (length + 1) (2 * word) (2 * (first + count)) (index + count) left

/-- The symbol of the next word. -/
def Code.read (c : Code) : Step Nat := c.readFrom 1 0 0 0 maxLength

/-- For each symbol of a length: the least length and the number of bits that are added to it. -/
def lengthTable : Array (Nat × Nat) := #[
  (3, 0), (4, 0), (5, 0), (6, 0), (7, 0), (8, 0), (9, 0), (10, 0), (11, 1), (13, 1), (15, 1), (17, 1),
  (19, 2), (23, 2), (27, 2), (31, 2), (35, 3), (43, 3), (51, 3), (59, 3), (67, 4), (83, 4), (99, 4),
  (115, 4), (131, 5), (163, 5), (195, 5), (227, 5), (258, 0)]

/-- For each symbol of a distance: the least distance and the number of bits that are added to it. -/
def distanceTable : Array (Nat × Nat) := #[
  (1, 0), (2, 0), (3, 0), (4, 0), (5, 1), (7, 1), (9, 2), (13, 2), (17, 3), (25, 3), (33, 4), (49, 4),
  (65, 5), (97, 5), (129, 6), (193, 6), (257, 7), (385, 7), (513, 8), (769, 8), (1025, 9), (1537, 9),
  (2049, 10), (3073, 10), (4097, 11), (6145, 11), (8193, 12), (12289, 12), (16385, 13), (24577, 13)]

/-- The value of a symbol of a table, with the bits that follow it. -/
def readValue (table : Array (Nat × Nat)) (symbol : Nat) : Step Nat := do
  match table[symbol]? with
  | some (least, bits) => return least + (← readBits bits)
  | none => failure

/-- The symbol that ends a block. -/
def endOfBlock : Nat := 256

/-- The words of a block up to its end. -/
def readWords (literals distances : Code) : (fuel : Nat) → Step Unit
  | 0 => failure
  | fuel + 1 => do
    let symbol ← literals.read
    if symbol < endOfBlock then
      write (UInt8.ofNat symbol)
      readWords literals distances fuel
    else if symbol = endOfBlock then return ()
    else
      let length ← readValue lengthTable (symbol - endOfBlock - 1)
      let distance ← readValue distanceTable (← distances.read)
      copy distance length
      readWords literals distances fuel

/-- Moves to the next byte. -/
def align : Step Unit := modify fun s => { s with bit := (s.bit + 7) / 8 * 8 }

/-- A block of bytes that are written as they are. -/
def readStored : Step Unit := do
  align
  let length ← readBits 16
  let check ← readBits 16
  if length + check ≠ 65535 then failure
  let s ← get
  let start := s.bit / 8
  if s.input.size < start + length then failure
  set { s with
    bit := s.bit + 8 * length
    output := s.output ++ s.input.extract start (start + length) }

/-- The lengths of the words of literals in a block that brings no code of its own. -/
def fixedLiterals : List Nat :=
  List.replicate 144 8 ++ List.replicate 112 9 ++ List.replicate 24 7 ++ List.replicate 8 8

/-- The lengths of the words of distances in a block that brings no code of its own. -/
def fixedDistances : List Nat := List.replicate 30 5

/-- The order in which the lengths of the words for lengths are given. -/
def lengthOrder : List Nat := [16, 17, 18, 0, 8, 7, 9, 6, 10, 5, 11, 4, 12, 3, 13, 2, 14, 1, 15]

/-- The lengths of `wanted` words, the last ones first, behind those already read. -/
def readLengths (code : Code) (wanted : Nat) : (fuel : Nat) → List Nat → Step (List Nat)
  | 0, _ => failure
  | fuel + 1, found =>
    if wanted ≤ found.length then return found
    else do
      let symbol ← code.read
      if symbol < 16 then readLengths code wanted fuel (symbol :: found)
      else if symbol = 16 then
        match found with
        | [] => failure
        | last :: _ =>
          let n ← readBits 2
          readLengths code wanted fuel (List.replicate (n + 3) last ++ found)
      else if symbol = 17 then
        let n ← readBits 3
        readLengths code wanted fuel (List.replicate (n + 3) 0 ++ found)
      else
        let n ← readBits 7
        readLengths code wanted fuel (List.replicate (n + 11) 0 ++ found)

/-- The codes that a block brings with it, for literals and for distances. -/
def readCodes : Step (Code × Code) := do
  let literals := 257 + (← readBits 5)
  let distances := 1 + (← readBits 5)
  let given := 4 + (← readBits 4)
  let lengths ← (List.range given).mapM fun _ => readBits 3
  let byOrder := lengthOrder.zip lengths
  let code := Code.ofLengths ((List.range 19).map fun n => (byOrder.lookup n).getD 0)
  let wanted := literals + distances
  let all := (← readLengths code wanted (wanted + 1) []).reverse
  if all.length ≠ wanted then failure
  return (.ofLengths (all.take literals), .ofLengths (all.drop literals))

/-- Blocks up to the last one. -/
def readBlocks : (fuel : Nat) → Step Unit
  | 0 => failure
  | fuel + 1 => do
    let last ← readBit
    match ← readBits 2 with
    | 0 => readStored
    | 1 => readWords (.ofLengths fixedLiterals) (.ofLengths fixedDistances) fuel
    | 2 =>
      let (literals, distances) ← readCodes
      readWords literals distances fuel
    | _ => failure
    if last = 1 then return ()
    readBlocks fuel

/-- The bytes that a compressed byte string stands for, unless it is malformed. -/
def inflate (data : Bytes) : Option Bytes :=
  let input := data.toArray
  (readBlocks (8 * input.size + 1) ⟨input, 0, #[]⟩).map fun (_, s) => s.output.toList

end Forwarder.Inflate
