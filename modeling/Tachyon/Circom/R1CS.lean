import Tachyon.Base.Buffer

/-!
# The circom R1CS reader

`vendors/circom/circomlib/r1cs/r1cs.h` reads version 1 of circom's R1CS file: a table of typed
sections, and three of them, the header, the constraints and the map from wire ids to label
ids.  Each `Read` method is modelled with what it leaves behind: the object as the method left
it, and the buffer when it returned `true` (`none` when it returned `false`).  That keeps the
partial state of a failed read (a header whose first fields were overwritten, constraints
pushed before the one that failed), which the C++ does not roll back.

`PrimeField`, `Term`, `LinearCombination`, `Constraint` and `Sections` are not in the sources;
they are modelled from the spec's description of the file ("typed sections, discoverable by
type tag, in any order"; "each term is `(wire_id: u32, coefficient: field_size bytes)`").
-/

namespace Tachyon.Circom

open Base

/-! ## Values -/

/-- Modelled from the spec: `PrimeField`, a field element or modulus as its bytes. -/
structure PrimeField where
  bytes : List UInt8
  deriving DecidableEq, Repr, Inhabited

/-- Modelled from the spec: `Term`, a wire and its coefficient. -/
structure Term where
  wireId : UInt32
  coefficient : PrimeField
  deriving DecidableEq, Repr, Inhabited

/-- Modelled from the spec: `LinearCombination`, a list of terms. -/
structure LinearCombination where
  terms : List Term
  deriving DecidableEq, Repr, Inhabited

/-- Modelled from the spec: `Constraint`, the three linear combinations of `A · B = C`. -/
structure Constraint where
  a : LinearCombination
  b : LinearCombination
  c : LinearCombination
  deriving DecidableEq, Repr, Inhabited

/-- `R1CSSectionType`. -/
inductive R1CSSectionType
  | kHeader
  | kConstraints
  | kWire2LabelIdMap
  | kCustomGatesList
  | kCustomGatesApplication
  deriving DecidableEq, Repr

/-- The `uint32_t` tag of a section type. -/
def R1CSSectionType.toUInt32 : R1CSSectionType → UInt32
  | .kHeader => 0x1
  | .kConstraints => 0x2
  | .kWire2LabelIdMap => 0x3
  | .kCustomGatesList => 0x4
  | .kCustomGatesApplication => 0x5

lemma R1CSSectionType.toUInt32_injective : Function.Injective R1CSSectionType.toUInt32 := by
  intro s t
  cases s <;> cases t <;> decide

/-- `R1CSHeaderSection`. -/
structure R1CSHeaderSection where
  modulus : PrimeField
  numWires : UInt32
  numPublicOutputs : UInt32
  numPublicInputs : UInt32
  numPrivateInputs : UInt32
  numLabels : UInt64
  numConstraints : UInt32
  deriving DecidableEq, Repr, Inhabited

/-- `R1CSConstraintsSection`. -/
structure R1CSConstraintsSection where
  constraints : List Constraint
  deriving DecidableEq, Repr, Inhabited

/-- `R1CSWireId2LabelIdMapSection`. -/
structure R1CSWireId2LabelIdMapSection where
  labelIds : List UInt64
  deriving DecidableEq, Repr, Inhabited

/-- `v1::R1CS`. -/
structure R1CS where
  header : R1CSHeaderSection
  constraints : R1CSConstraintsSection
  wireIdToLabelIdMap : R1CSWireId2LabelIdMapSection
  deriving DecidableEq, Repr, Inhabited

namespace R1CS

/-- `GetNumInstanceVariables`: `1 + num_public_outputs + num_public_inputs`, computed in
`uint32_t` and widened to `size_t`. -/
def getNumInstanceVariables (r : R1CS) : ℕ :=
  (1 + r.header.numPublicOutputs + r.header.numPublicInputs).toNat

/-- `GetNumVariables`. -/
def getNumVariables (r : R1CS) : ℕ := r.header.numWires.toNat

end R1CS

/-! ## Sections -/

/-- Modelled from the spec: an entry of the table of `Sections`, a section's type tag, the
offset of its payload, and its size. -/
structure Section where
  sectionType : UInt32
  sectionOffset : ℕ
  sectionSize : UInt64
  deriving DecidableEq, Repr

/-- Modelled from the spec: the entries `Sections::Read` reads, each a `uint32_t` type and a
`uint64_t` size followed by the payload, which it skips. -/
def readSectionEntries : ℕ → Reader (List Section)
  | 0 => pure []
  | n + 1 => do
    let sectionType ← readU32
    let sectionSize ← readU64
    let b ← get
    set (b.setOffset (b.offset + sectionSize.toNat))
    let sections ← readSectionEntries n
    pure (⟨sectionType, b.offset, sectionSize⟩ :: sections)

namespace Sections

/-- Modelled from the spec: `Sections::Read`, a `uint32_t` count of sections and their
entries. -/
def read : Reader (List Section) := do
  let numSections ← readU32
  readSectionEntries numSections.toNat

/-- Modelled from the spec: `Sections::MoveTo`, which moves the buffer to the payload of a section
of the type, and fails when there is none.  The spec says only that a section is found by its
type; that a type listed twice resolves to its first entry is an assumption of this model. -/
def moveTo (sections : List Section) (sectionType : R1CSSectionType) (b : ReadOnlyBuffer) :
    Option ReadOnlyBuffer :=
  (sections.find? (·.sectionType == sectionType.toUInt32)).map fun s => b.setOffset s.sectionOffset

end Sections

/-! ## Reading values -/

namespace PrimeField

/-- Modelled from the spec: `PrimeField::Read(buffer, field_size)`, `field_size` bytes. -/
def readSized (fieldSize : UInt32) : Reader PrimeField := do
  let bytes ← readBytes fieldSize.toNat
  pure ⟨bytes⟩

/-- Modelled from the spec: `PrimeField::Read(buffer)`, a `uint32_t` size, then that many
bytes. -/
def read : Reader PrimeField := do
  let fieldSize ← readU32
  readSized fieldSize

end PrimeField

/-- A term of the `k` loop of `R1CSConstraintsSection::Read`: its `wire_id`, then its
coefficient of `field_size` bytes. -/
def readTerm (fieldSize : UInt32) : Reader Term := do
  let wireId ← readU32
  let coefficient ← PrimeField.readSized fieldSize
  pure ⟨wireId, coefficient⟩

/-- The `k` loop: `n` terms into `std::vector<Term> terms(n)`. -/
def readTerms (fieldSize : UInt32) : ℕ → Reader (List Term)
  | 0 => pure []
  | n + 1 => do
    let term ← readTerm fieldSize
    let terms ← readTerms fieldSize n
    pure (term :: terms)

/-- A pass of the `j` loop: the term count `n`, then the terms. -/
def readLinearCombination (fieldSize : UInt32) : Reader LinearCombination := do
  let n ← readU32
  let terms ← readTerms fieldSize n.toNat
  pure ⟨terms⟩

/-- The body of the `i` loop: the passes `j = 0, 1, 2` fill `a`, `b` and `c`.  A failure
discards the local `constraint`. -/
def readConstraint (fieldSize : UInt32) : Reader Constraint := do
  let a ← readLinearCombination fieldSize
  let b ← readLinearCombination fieldSize
  let c ← readLinearCombination fieldSize
  pure ⟨a, b, c⟩

/-! ## The sections' `Read` methods -/

/-- `ReadOnlyBuffer::ReadMany`, one out-parameter at a time: read a value and store it, then
go on; at the first read that fails, stop with `false`, keeping what was stored. -/
def readInto {S α : Type} (read : Reader α) (store : S → α → S)
    (next : S → ReadOnlyBuffer → S × Option ReadOnlyBuffer) (s : S) (b : ReadOnlyBuffer) :
    S × Option ReadOnlyBuffer :=
  match read.run b with
  | none => (s, none)
  | some (v, b) => next (store s v) b

/-- `R1CSHeaderSection::Read`: the modulus, then `ReadMany` of the six counts. -/
def R1CSHeaderSection.read :
    R1CSHeaderSection → ReadOnlyBuffer → R1CSHeaderSection × Option ReadOnlyBuffer :=
  readInto PrimeField.read (fun h modulus => { h with modulus }) <|
  readInto readU32 (fun h numWires => { h with numWires }) <|
  readInto readU32 (fun h numPublicOutputs => { h with numPublicOutputs }) <|
  readInto readU32 (fun h numPublicInputs => { h with numPublicInputs }) <|
  readInto readU32 (fun h numPrivateInputs => { h with numPrivateInputs }) <|
  readInto readU64 (fun h numLabels => { h with numLabels }) <|
  readInto readU32 (fun h numConstraints => { h with numConstraints }) <|
  fun h b => (h, some b)

/-- The `i` loop of `R1CSConstraintsSection::Read`: a constraint is pushed once all its terms
are read, after the ones already there. -/
def readConstraintsLoop (fieldSize : UInt32) :
    ℕ → R1CSConstraintsSection → ReadOnlyBuffer → R1CSConstraintsSection × Option ReadOnlyBuffer
  | 0, s, b => (s, some b)
  | n + 1, s, b =>
    match (readConstraint fieldSize).run b with
    | none => (s, none)
    | some (constraint, b) => readConstraintsLoop fieldSize n ⟨s.constraints ++ [constraint]⟩ b

/-- `R1CSConstraintsSection::Read`, with `field_size` the `uint32_t` size of the modulus. -/
def R1CSConstraintsSection.read (s : R1CSConstraintsSection) (b : ReadOnlyBuffer)
    (header : R1CSHeaderSection) : R1CSConstraintsSection × Option ReadOnlyBuffer :=
  readConstraintsLoop (UInt32.ofNat header.modulus.bytes.length) header.numConstraints.toNat s b

/-- `std::vector::resize`: the first `n` elements, padded with `a`. -/
def resize {α : Type} (l : List α) (n : ℕ) (a : α) : List α :=
  l.take n ++ List.replicate (n - l.length) a

/-- The `i` loop of `R1CSWireId2LabelIdMapSection::Read`: `label_ids[i]`, for `i` from the
given index on. -/
def readLabelIdsLoop :
    ℕ → ℕ → R1CSWireId2LabelIdMapSection → ReadOnlyBuffer →
      R1CSWireId2LabelIdMapSection × Option ReadOnlyBuffer
  | 0, _, s, b => (s, some b)
  | n + 1, i, s, b =>
    match readU64.run b with
    | none => (s, none)
    | some (labelId, b) => readLabelIdsLoop n (i + 1) ⟨s.labelIds.set i labelId⟩ b

/-- `R1CSWireId2LabelIdMapSection::Read`: `label_ids.resize(num_wires)`, then one `uint64_t`
per wire. -/
def R1CSWireId2LabelIdMapSection.read (s : R1CSWireId2LabelIdMapSection) (b : ReadOnlyBuffer)
    (header : R1CSHeaderSection) : R1CSWireId2LabelIdMapSection × Option ReadOnlyBuffer :=
  readLabelIdsLoop header.numWires.toNat 0 ⟨resize s.labelIds header.numWires.toNat 0⟩ b

/-- `v1::R1CS::Read`: the section table, then the header, the constraints and the label map,
each read where `MoveTo` puts the buffer. -/
def R1CS.read (r : R1CS) (b : ReadOnlyBuffer) : Bool × R1CS :=
  match Sections.read.run b with
  | none => (false, r)
  | some (sections, b) =>
  match Sections.moveTo sections .kHeader b with
  | none => (false, r)
  | some b =>
  match r.header.read b with
  | (header, none) => (false, { r with header })
  | (header, some b) =>
  match Sections.moveTo sections .kConstraints b with
  | none => (false, { r with header })
  | some b =>
  match r.constraints.read b header with
  | (constraints, none) => (false, { r with header, constraints })
  | (constraints, some b) =>
  match Sections.moveTo sections .kWire2LabelIdMap b with
  | none => (false, { r with header, constraints })
  | some b =>
  match r.wireIdToLabelIdMap.read b header with
  | (wireIdToLabelIdMap, none) => (false, { header, constraints, wireIdToLabelIdMap })
  | (wireIdToLabelIdMap, some _) => (true, { header, constraints, wireIdToLabelIdMap })

end Tachyon.Circom
