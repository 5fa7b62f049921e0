import Tachyon.Circom.R1CS

/-!
# Reading back an encoded R1CS

The file layout that `v1::R1CS::Read` expects, written as an encoder, and the proof that the
reader returns what was encoded.  The encoding is little-endian throughout: a count of
sections, then each section as its `uint32_t` type, its `uint64_t` size and its payload, in
any order.  The header's payload is the modulus (a `uint32_t` size and its bytes) and the six
counts; the constraints' payload has, per constraint and per `A`, `B`, `C`, a `uint32_t` term
count and the terms; the label map's payload is one `uint64_t` per wire.

Each reader's round trip is a `Reads` fact (for the value readers) or a `ReadsInto` fact (for
the `Read` methods, which update an object), assembled from those of its parts.  The file
round trip `R1CS.read_encode_default` needs the conditions under which the format can carry
the value at all (`R1CS.WellFormed`): counts that fit their fields, as many constraints and
label ids as the header announces, coefficients of the modulus's size.
-/

namespace Tachyon.Circom

open Base ReadOnlyBuffer

/-! ## The encoding -/

/-- A modulus as `PrimeField::Read(buffer)` reads it: its size, then its bytes. -/
def PrimeField.encode (p : PrimeField) : List UInt8 :=
  encodeU32 (UInt32.ofNat p.bytes.length) ++ p.bytes

/-- A term: its `wire_id`, then its coefficient's bytes. -/
def Term.encode (t : Term) : List UInt8 := encodeU32 t.wireId ++ t.coefficient.bytes

/-- A linear combination: its term count, then the terms. -/
def LinearCombination.encode (lc : LinearCombination) : List UInt8 :=
  encodeU32 (UInt32.ofNat lc.terms.length) ++ lc.terms.flatMap Term.encode

/-- A constraint: `A`, `B`, then `C`. -/
def Constraint.encode (c : Constraint) : List UInt8 := c.a.encode ++ c.b.encode ++ c.c.encode

/-- The header section's payload. -/
def R1CSHeaderSection.encode (h : R1CSHeaderSection) : List UInt8 :=
  h.modulus.encode ++ encodeU32 h.numWires ++ encodeU32 h.numPublicOutputs ++
    encodeU32 h.numPublicInputs ++ encodeU32 h.numPrivateInputs ++ encodeU64 h.numLabels ++
    encodeU32 h.numConstraints

/-- The constraints section's payload. -/
def R1CSConstraintsSection.encode (s : R1CSConstraintsSection) : List UInt8 :=
  s.constraints.flatMap Constraint.encode

/-- The label map's payload. -/
def R1CSWireId2LabelIdMapSection.encode (s : R1CSWireId2LabelIdMapSection) : List UInt8 :=
  s.labelIds.flatMap encodeU64

/-- A section as `Sections::Read` reads it: its type, its size, its payload. -/
def encodeSection (sectionType : UInt32) (payload : List UInt8) : List UInt8 :=
  encodeU32 sectionType ++ (encodeU64 (UInt64.ofNat payload.length) ++ payload)

/-- The sections, one after another. -/
def encodeSectionEntries (entries : List (UInt32 × List UInt8)) : List UInt8 :=
  entries.flatMap fun e => encodeSection e.1 e.2

/-- A file of sections: their count, then the sections. -/
def encodeSections (entries : List (UInt32 × List UInt8)) : List UInt8 :=
  encodeU32 (UInt32.ofNat entries.length) ++ encodeSectionEntries entries

namespace R1CS

/-- The payload of each section of `r`. -/
def payload (r : R1CS) : R1CSSectionType → List UInt8
  | .kHeader => r.header.encode
  | .kConstraints => r.constraints.encode
  | .kWire2LabelIdMap => r.wireIdToLabelIdMap.encode
  | .kCustomGatesList => []
  | .kCustomGatesApplication => []

/-- `r` as a file whose sections come in `order`. -/
def encode (r : R1CS) (order : List R1CSSectionType) : List UInt8 :=
  encodeSections (order.map fun t => (t.toUInt32, r.payload t))

end R1CS

/-! ## What the format can carry -/

/-- A linear combination whose term count fits its `uint32_t` and whose coefficients have
`fieldSize` bytes. -/
def LinearCombination.Fits (fieldSize : ℕ) (lc : LinearCombination) : Prop :=
  lc.terms.length < 2 ^ 32 ∧ ∀ t ∈ lc.terms, t.coefficient.bytes.length = fieldSize

instance (fieldSize : ℕ) (lc : LinearCombination) : Decidable (lc.Fits fieldSize) :=
  inferInstanceAs (Decidable (_ ∧ _))

/-- A constraint whose three linear combinations fit. -/
def Constraint.Fits (fieldSize : ℕ) (c : Constraint) : Prop :=
  c.a.Fits fieldSize ∧ c.b.Fits fieldSize ∧ c.c.Fits fieldSize

instance (fieldSize : ℕ) (c : Constraint) : Decidable (c.Fits fieldSize) :=
  inferInstanceAs (Decidable (_ ∧ _ ∧ _))

/-- An R1CS that its file carries: a modulus whose size fits a `uint32_t`, exactly
`num_constraints` constraints with coefficients of the modulus's size, exactly `num_wires` label
ids, and sections shorter than `2^64` bytes. -/
structure R1CS.WellFormed (r : R1CS) : Prop where
  modulus_lt : r.header.modulus.bytes.length < 2 ^ 32
  length_constraints : r.constraints.constraints.length = r.header.numConstraints.toNat
  constraints_fit : ∀ c ∈ r.constraints.constraints, c.Fits r.header.modulus.bytes.length
  length_labelIds : r.wireIdToLabelIdMap.labelIds.length = r.header.numWires.toNat
  payload_lt : ∀ t, (r.payload t).length < 2 ^ 64

/-! ## Reading values back -/

section Values

variable {fieldSize : UInt32}

lemma PrimeField.reads_readSized (p : PrimeField) (h : fieldSize.toNat = p.bytes.length) :
    Reads (PrimeField.readSized fieldSize) p.bytes p := by
  rw [PrimeField.readSized, h]
  exact (reads_readBytes p.bytes).bind_pure PrimeField.mk

lemma PrimeField.reads_read (p : PrimeField) (h : p.bytes.length < 2 ^ 32) :
    Reads PrimeField.read p.encode p :=
  (reads_readU32 _).bind (p.reads_readSized (UInt32.toNat_ofNat_of_lt h))

lemma reads_readTerm (t : Term) (h : fieldSize.toNat = t.coefficient.bytes.length) :
    Reads (readTerm fieldSize) t.encode t :=
  (reads_readU32 _).bind ((t.coefficient.reads_readSized h).bind_pure _)

lemma reads_readTerms (ts : List Term)
    (h : ∀ t ∈ ts, t.coefficient.bytes.length = fieldSize.toNat) :
    Reads (readTerms fieldSize ts.length) (ts.flatMap Term.encode) ts := by
  induction ts with
  | nil => exact reads_pure _
  | cons t ts ih =>
    rw [List.flatMap_cons]
    exact (reads_readTerm t (h t (.head _)).symm).bind
      ((ih fun t' ht' => h t' (.tail _ ht')).bind_pure _)

lemma reads_readLinearCombination (lc : LinearCombination) (h : lc.Fits fieldSize.toNat) :
    Reads (readLinearCombination fieldSize) lc.encode lc := by
  refine (reads_readU32 _).bind ?_
  rw [UInt32.toNat_ofNat_of_lt h.1]
  exact (reads_readTerms lc.terms h.2).bind_pure _

lemma reads_readConstraint (c : Constraint) (h : c.Fits fieldSize.toNat) :
    Reads (readConstraint fieldSize) c.encode c := by
  rw [Constraint.encode, List.append_assoc]
  exact (reads_readLinearCombination _ h.1).bind <|
    (reads_readLinearCombination _ h.2.1).bind <| (reads_readLinearCombination _ h.2.2).bind_pure _

end Values

/-! ## Reading sections back -/

/-- `read` takes every prior state `s` to `f s`, reading exactly `enc`. -/
def ReadsInto {S : Type} (read : S → ReadOnlyBuffer → S × Option ReadOnlyBuffer)
    (enc : List UInt8) (f : S → S) : Prop :=
  ∀ s b rest, b.Remaining (enc ++ rest) →
    read s b = (f s, some (b.setOffset (b.offset + enc.length)))

section Sections

variable {S α : Type}

lemma readsInto_done : ReadsInto (fun (s : S) b => (s, some b)) [] id := fun _ b _ _ => by
  simp [setOffset]

lemma readsInto_readInto {read : Reader α} {e e' : List UInt8} {v : α} {store : S → α → S}
    {next : S → ReadOnlyBuffer → S × Option ReadOnlyBuffer} {f : S → S} (hr : Reads read e v)
    (hn : ReadsInto next e' f) :
    ReadsInto (readInto read store next) (e ++ e') (fun s => f (store s v)) := by
  intro s b rest hb
  rw [List.append_assoc] at hb
  simp only [Circom.readInto, hr b _ hb, hn _ _ rest hb.skip]
  simp [Nat.add_assoc]

lemma R1CSHeaderSection.readsInto_read (h : R1CSHeaderSection)
    (hm : h.modulus.bytes.length < 2 ^ 32) :
    ReadsInto R1CSHeaderSection.read h.encode fun _ => h := by
  have : ReadsInto R1CSHeaderSection.read _ _ := readsInto_readInto (h.modulus.reads_read hm) <|
    readsInto_readInto (reads_readU32 h.numWires) <|
    readsInto_readInto (reads_readU32 h.numPublicOutputs) <|
    readsInto_readInto (reads_readU32 h.numPublicInputs) <|
    readsInto_readInto (reads_readU32 h.numPrivateInputs) <|
    readsInto_readInto (reads_readU64 h.numLabels) <|
    readsInto_readInto (reads_readU32 h.numConstraints) readsInto_done
  rw [List.append_nil] at this
  rw [R1CSHeaderSection.encode]
  simp only [List.append_assoc]
  exact this

lemma readsInto_readConstraintsLoop {fieldSize : UInt32} (cs : List Constraint)
    (h : ∀ c ∈ cs, c.Fits fieldSize.toNat) :
    ReadsInto (readConstraintsLoop fieldSize cs.length) (cs.flatMap Constraint.encode)
      fun s => ⟨s.constraints ++ cs⟩ := by
  induction cs with
  | nil => intro s b _ _; simp [readConstraintsLoop, setOffset]
  | cons c cs ih =>
    intro s b rest hb
    rw [List.flatMap_cons, List.append_assoc] at hb
    rw [List.length_cons, readConstraintsLoop, reads_readConstraint c (h c (.head _)) b _ hb]
    simp only [ih (fun c' hc' => h c' (.tail _ hc')) _ _ rest hb.skip, List.flatMap_cons,
      List.append_assoc, List.singleton_append, List.length_append, setOffset_setOffset,
      offset_setOffset, Nat.add_assoc]

lemma R1CSConstraintsSection.readsInto_read (header : R1CSHeaderSection)
    (cs : List Constraint) (hlen : cs.length = header.numConstraints.toNat)
    (hmod : header.modulus.bytes.length < 2 ^ 32)
    (h : ∀ c ∈ cs, c.Fits header.modulus.bytes.length) :
    ReadsInto (fun s b => R1CSConstraintsSection.read s b header)
      (⟨cs⟩ : R1CSConstraintsSection).encode
      fun s => ⟨s.constraints ++ cs⟩ := by
  have hfs : (UInt32.ofNat header.modulus.bytes.length).toNat = header.modulus.bytes.length :=
    UInt32.toNat_ofNat_of_lt hmod
  intro s b rest hb
  dsimp only [R1CSConstraintsSection.read]
  rw [← hlen]
  have h' : ∀ c ∈ cs, c.Fits (UInt32.ofNat header.modulus.bytes.length).toNat := by rwa [hfs]
  exact readsInto_readConstraintsLoop cs h' s b rest hb

lemma readLabelIdsLoop_eq (ids : List UInt64) :
    ∀ (done pending : List UInt64), pending.length = ids.length → ∀ b rest,
      b.Remaining (ids.flatMap encodeU64 ++ rest) →
      readLabelIdsLoop ids.length done.length ⟨done ++ pending⟩ b =
        (⟨done ++ ids⟩, some (b.setOffset (b.offset + (ids.flatMap encodeU64).length))) := by
  induction ids with
  | nil =>
    intro done pending hlen b _ _
    rw [List.eq_nil_of_length_eq_zero hlen]
    simp [readLabelIdsLoop, setOffset]
  | cons v ids ih =>
    intro done pending hlen b rest hb
    obtain ⟨p, pending, rfl⟩ := List.exists_cons_of_length_eq_add_one hlen
    rw [List.flatMap_cons, List.append_assoc] at hb
    have hset : (done ++ p :: pending).set done.length v = (done ++ [v]) ++ pending := by
      simp [List.set_append]
    rw [List.length_cons, readLabelIdsLoop, reads_readU64 v b _ hb]
    dsimp only
    rw [hset, show done.length + 1 = (done ++ [v]).length by simp,
      ih _ _ (by simpa using hlen) _ rest hb.skip]
    simp [Nat.add_assoc]

lemma R1CSWireId2LabelIdMapSection.readsInto_read (header : R1CSHeaderSection)
    (ids : List UInt64) (hlen : ids.length = header.numWires.toNat) :
    ReadsInto (fun s b => R1CSWireId2LabelIdMapSection.read s b header)
      (⟨ids⟩ : R1CSWireId2LabelIdMapSection).encode fun _ => ⟨ids⟩ := by
  intro s b rest hb
  dsimp only [R1CSWireId2LabelIdMapSection.read]
  rw [← hlen]
  have hres : (resize s.labelIds ids.length 0).length = ids.length := by
    simp only [resize, List.length_append, List.length_take, List.length_replicate]
    omega
  simpa [R1CSWireId2LabelIdMapSection.encode] using readLabelIdsLoop_eq ids [] _ hres b rest hb

end Sections

/-! ## The section table -/

/-- The table `Sections::Read` records for sections laid out from `offset` on: each payload
starts 12 bytes after its entry. -/
def sectionTable (offset : ℕ) : List (UInt32 × List UInt8) → List Section
  | [] => []
  | (sectionType, payload) :: entries =>
    ⟨sectionType, offset + 12, UInt64.ofNat payload.length⟩ ::
      sectionTable (offset + 12 + payload.length) entries

lemma run_readSectionEntries (entries : List (UInt32 × List UInt8))
    (hlt : ∀ e ∈ entries, e.2.length < 2 ^ 64) :
    ∀ b rest, b.Remaining (encodeSectionEntries entries ++ rest) →
      (readSectionEntries entries.length).run b =
        some (sectionTable b.offset entries,
          b.setOffset (b.offset + (encodeSectionEntries entries).length)) := by
  induction entries with
  | nil => intro b _ _; simp [readSectionEntries, sectionTable, encodeSectionEntries, setOffset]
  | cons e entries ih =>
    intro b rest hb
    obtain ⟨t, p⟩ := e
    simp only [encodeSectionEntries, List.flatMap_cons, encodeSection, List.append_assoc] at hb
    have hb₁ := hb.skip
    have hb₂ := hb₁.skip
    have hb₃ := hb₂.skip
    simp only [length_encodeU32, length_encodeU64, offset_setOffset, setOffset_setOffset]
      at hb₁ hb₂ hb₃
    have hsize : (UInt64.ofNat p.length).toNat = p.length :=
      UInt64.toNat_ofNat_of_lt (hlt _ (.head _))
    have hrest := ih (fun e he => hlt e (.tail _ he)) _ rest hb₃
    simp only [List.length_cons, readSectionEntries, StateT.run_bind, reads_readU32 t b _ hb,
      Option.bind_eq_bind, Option.some_bind, reads_readU64 _ _ _ hb₁, StateT.run_get,
      StateT.run_set, StateT.run_pure, Option.pure_def, hsize, offset_setOffset,
      setOffset_setOffset, length_encodeU32, length_encodeU64, hrest]
    simp only [sectionTable, encodeSectionEntries, List.flatMap_cons, encodeSection,
      List.length_append, length_encodeU32, length_encodeU64, setOffset_setOffset]
    congr 3
    omega

lemma Sections.run_read (entries : List (UInt32 × List UInt8)) (hlen : entries.length < 2 ^ 32)
    (hlt : ∀ e ∈ entries, e.2.length < 2 ^ 64) (b : ReadOnlyBuffer) (rest : List UInt8)
    (hb : b.Remaining (encodeSections entries ++ rest)) :
    Sections.read.run b =
      some (sectionTable (b.offset + 4) entries,
        b.setOffset (b.offset + (encodeSections entries).length)) := by
  rw [encodeSections, List.append_assoc] at hb
  have hentries := run_readSectionEntries entries hlt _ rest hb.skip
  simp only [length_encodeU32, offset_setOffset, setOffset_setOffset] at hentries
  simp only [Sections.read, StateT.run_bind, reads_readU32 _ b _ hb, Option.bind_eq_bind,
    Option.some_bind, length_encodeU32, UInt32.toNat_ofNat_of_lt hlen, hentries, encodeSections,
    List.length_append, Nat.add_assoc]

/-- `MoveTo` finds the first section of a type wherever it sits in the table, after any sections
of other types. -/
lemma moveTo_sectionTable_first {t : R1CSSectionType} {payload : List UInt8} (b : ReadOnlyBuffer)
    (entries : List (UInt32 × List UInt8))
    (hfirst : (entries.find? (·.1 == t.toUInt32)).map (·.2) = some payload) :
    ∀ o rest, (b.setOffset o).Remaining (encodeSectionEntries entries ++ rest) →
      ∃ o' rest', (∀ b' : ReadOnlyBuffer,
        Sections.moveTo (sectionTable o entries) t b' = some (b'.setOffset o')) ∧
        (b.setOffset o').Remaining (payload ++ rest') := by
  induction entries with
  | nil => simp at hfirst
  | cons e entries ih =>
    intro o rest hb
    obtain ⟨t', p⟩ := e
    simp only [encodeSectionEntries, List.flatMap_cons, encodeSection, List.append_assoc] at hb
    have hb₂ := hb.skip.skip
    simp only [length_encodeU32, length_encodeU64, offset_setOffset, setOffset_setOffset] at hb₂
    by_cases heq : t' = t.toUInt32
    · obtain rfl : p = payload := by simpa [heq] using hfirst
      refine ⟨o + 4 + 8, _, fun b' => ?_, hb₂⟩
      rw [Sections.moveTo, sectionTable, List.find?_cons_of_pos _ (by simpa using heq)]
      rfl
    · obtain ⟨o', rest', hmove, hrem⟩ :=
        ih (by simpa [heq] using hfirst) _ rest (by simpa using hb₂.skip)
      refine ⟨o', rest', fun b' => ?_, hrem⟩
      rw [Sections.moveTo, sectionTable, List.find?_cons_of_neg _ (by simpa using heq), ← hmove b',
        Sections.moveTo, show o + 4 + 8 + p.length = o + 12 + p.length by omega]

/-- The first section of a type carries the payload that every section of that type carries. -/
lemma find?_eq_payload {entries : List (UInt32 × List UInt8)} {tag : UInt32}
    {payload : List UInt8} (hmem : (tag, payload) ∈ entries)
    (hpayload : ∀ e ∈ entries, e.1 = tag → e.2 = payload) :
    (entries.find? (·.1 == tag)).map (·.2) = some payload := by
  have hsome : (entries.find? (·.1 == tag)).isSome := List.find?_isSome.2 ⟨_, hmem, by simp⟩
  obtain ⟨e, he⟩ := Option.isSome_iff_exists.1 hsome
  rw [he, Option.map_some', hpayload e (List.mem_of_find?_eq_some he)
    (by simpa using List.find?_some he)]

/-- A type with one section in the table: its first section is that one. -/
lemma find?_eq_of_filter {entries : List (UInt32 × List UInt8)} {tag : UInt32}
    {payload : List UInt8} (h : (entries.filter (·.1 == tag)).map (·.2) = [payload]) :
    (entries.find? (·.1 == tag)).map (·.2) = some payload := by
  rw [← List.filter_head?, ← List.head?_map, h]
  rfl

/-! ## The file -/

namespace R1CS

/-- Read into any prior state, a file whose first header, constraints and label map sections
carry the payloads of a well-formed R1CS comes back as that R1CS, with its constraints pushed
after the ones already there, whatever other sections the file holds. -/
lemma read_encodeSections_append (r s : R1CS) (hwf : r.WellFormed)
    (entries : List (UInt32 × List UInt8)) (hlen : entries.length < 2 ^ 32)
    (hlt : ∀ e ∈ entries, e.2.length < 2 ^ 64)
    (hfirst : ∀ t ∈ [R1CSSectionType.kHeader, .kConstraints, .kWire2LabelIdMap],
      (entries.find? (·.1 == t.toUInt32)).map (·.2) = some (r.payload t))
    (pre post : List UInt8) :
    s.read ⟨pre ++ encodeSections entries ++ post, pre.length⟩ =
      (true, ⟨r.header, ⟨s.constraints.constraints ++ r.constraints.constraints⟩,
        r.wireIdToLabelIdMap⟩) := by
  set b₀ : ReadOnlyBuffer := ⟨pre ++ encodeSections entries ++ post, pre.length⟩
  have hb₀ : b₀.Remaining (encodeSections entries ++ post) := ⟨by simp [b₀], by simp [b₀]⟩
  have hsections := Sections.run_read entries hlen hlt b₀ post hb₀
  have hb₁ : (b₀.setOffset (pre.length + 4)).Remaining (encodeSectionEntries entries ++ post) := by
    rw [encodeSections, List.append_assoc] at hb₀
    simpa [b₀] using hb₀.skip
  -- every section of the three is found where its payload starts
  have hmove : ∀ t ∈ [R1CSSectionType.kHeader, .kConstraints, .kWire2LabelIdMap], ∃ o' rest',
      (∀ b' : ReadOnlyBuffer,
        Sections.moveTo (sectionTable (pre.length + 4) entries) t b' = some (b'.setOffset o')) ∧
      (b₀.setOffset o').Remaining (r.payload t ++ rest') := fun t ht =>
    moveTo_sectionTable_first b₀ entries (hfirst t ht) _ post (by simpa [b₀] using hb₁)
  obtain ⟨o₁, rest₁, hm₁, hr₁⟩ := hmove .kHeader (by simp)
  obtain ⟨o₂, rest₂, hm₂, hr₂⟩ := hmove .kConstraints (by simp)
  obtain ⟨o₃, rest₃, hm₃, hr₃⟩ := hmove .kWire2LabelIdMap (by simp)
  have hheader := R1CSHeaderSection.readsInto_read r.header hwf.modulus_lt s.header _ rest₁ hr₁
  have hconstraints := R1CSConstraintsSection.readsInto_read r.header r.constraints.constraints
    hwf.length_constraints hwf.modulus_lt hwf.constraints_fit s.constraints _ rest₂ hr₂
  have hlabels := R1CSWireId2LabelIdMapSection.readsInto_read r.header
    r.wireIdToLabelIdMap.labelIds hwf.length_labelIds s.wireIdToLabelIdMap _ rest₃ hr₃
  simp only [setOffset_setOffset] at hheader hconstraints hlabels
  simp only [R1CS.read, hsections, hm₁, setOffset_setOffset, hheader, hm₂, hconstraints, hm₃,
    hlabels]

/-- Read into any prior state, a well-formed R1CS laid out in any order comes back, with its
constraints pushed after the ones already there. -/
lemma read_encode_append (r s : R1CS) (hwf : r.WellFormed) (order : List R1CSSectionType)
    (horder : order.Perm [.kHeader, .kConstraints, .kWire2LabelIdMap]) (pre post : List UInt8) :
    s.read ⟨pre ++ r.encode order ++ post, pre.length⟩ =
      (true, ⟨r.header, ⟨s.constraints.constraints ++ r.constraints.constraints⟩,
        r.wireIdToLabelIdMap⟩) :=
  read_encodeSections_append r s hwf _ (by simp [horder.length_eq])
    (by simpa using fun t _ => hwf.payload_lt t)
    (fun t ht => find?_eq_payload (List.mem_map_of_mem _ (horder.mem_iff.2 ht)) fun e he heq => by
      obtain ⟨t', -, rfl⟩ := List.mem_map.1 he
      rw [R1CSSectionType.toUInt32_injective heq]) pre post

/-- **R1CS round trip.**  Take a well-formed R1CS and lay its header, constraints and label map
out in any order, after any bytes (such as the magic and version `ParseR1CS` reads first) and
before any.  `R1CS::Read` on an object without constraints, as a default-constructed one is,
returns `true` and yields exactly the header, the constraints and the label ids. -/
theorem read_encode_default (r s : R1CS) (hwf : r.WellFormed) (order : List R1CSSectionType)
    (horder : order.Perm [.kHeader, .kConstraints, .kWire2LabelIdMap])
    (hs : s.constraints.constraints = []) (pre post : List UInt8) :
    s.read ⟨pre ++ r.encode order ++ post, pre.length⟩ = (true, r) := by
  rw [read_encode_append r s hwf order horder, hs, List.nil_append]

/-- The circuit `w₁ · w₁ = w₂` over a one-byte modulus, with its constraints section first,
behind the magic `"r1cs"` and version `1`, read into a default-constructed object. -/
theorem read_encode_default_constraintsFirst :
    let r : R1CS := ⟨⟨⟨[7]⟩, 3, 1, 1, 0, 3, 1⟩,
      ⟨[⟨⟨[⟨1, ⟨[1]⟩⟩]⟩, ⟨[⟨1, ⟨[1]⟩⟩]⟩, ⟨[⟨2, ⟨[1]⟩⟩]⟩⟩]⟩, ⟨[0, 1, 2]⟩⟩
    let order := [R1CSSectionType.kConstraints, .kHeader, .kWire2LabelIdMap]
    let pre : List UInt8 := [0x72, 0x31, 0x63, 0x73, 1, 0, 0, 0]
    r.WellFormed ∧ order.Perm [.kHeader, .kConstraints, .kWire2LabelIdMap] ∧
      (default : R1CS).constraints.constraints = [] ∧
      (default : R1CS).read ⟨pre ++ r.encode order ++ [], pre.length⟩ = (true, r) :=
  have hwf : R1CS.WellFormed ⟨⟨⟨[7]⟩, 3, 1, 1, 0, 3, 1⟩,
      ⟨[⟨⟨[⟨1, ⟨[1]⟩⟩]⟩, ⟨[⟨1, ⟨[1]⟩⟩]⟩, ⟨[⟨2, ⟨[1]⟩⟩]⟩⟩]⟩, ⟨[0, 1, 2]⟩⟩ :=
    ⟨by decide, by decide, by decide, by decide, fun t => by cases t <;> decide⟩
  ⟨hwf, by decide, rfl, read_encode_default _ _ hwf _ (by decide) rfl _ _⟩

/-- **Reading twice appends.**  `R1CSConstraintsSection::Read` pushes after the constraints
already there.  Both `R1CS::Read`s of the same file into the same object return `true`, and the
second reads the header and the label ids again but leaves every constraint held twice. -/
theorem read_twice_appends_constraints (r s : R1CS) (hwf : r.WellFormed)
    (order : List R1CSSectionType)
    (horder : order.Perm [.kHeader, .kConstraints, .kWire2LabelIdMap])
    (hs : s.constraints.constraints = []) (pre post : List UInt8) :
    let b : ReadOnlyBuffer := ⟨pre ++ r.encode order ++ post, pre.length⟩
    (s.read b).1 = true ∧ (s.read b).2.read b = (true,
      { r with constraints := ⟨r.constraints.constraints ++ r.constraints.constraints⟩ }) := by
  simp only [read_encode_append r _ hwf order horder, hs, List.nil_append, and_self]

/-- The one-constraint circuit, read twice from a file with its header first. -/
theorem read_twice_appends_constraints_headerFirst :
    let r : R1CS := ⟨⟨⟨[7]⟩, 3, 1, 1, 0, 3, 1⟩,
      ⟨[⟨⟨[⟨1, ⟨[1]⟩⟩]⟩, ⟨[⟨1, ⟨[1]⟩⟩]⟩, ⟨[⟨2, ⟨[1]⟩⟩]⟩⟩]⟩, ⟨[0, 1, 2]⟩⟩
    let order := [R1CSSectionType.kHeader, .kConstraints, .kWire2LabelIdMap]
    let b : ReadOnlyBuffer := ⟨[] ++ r.encode order ++ [], ([] : List UInt8).length⟩
    r.WellFormed ∧ order.Perm [.kHeader, .kConstraints, .kWire2LabelIdMap] ∧
      (default : R1CS).constraints.constraints = [] ∧
      ((default : R1CS).read b).1 = true ∧ ((default : R1CS).read b).2.read b = (true,
        { r with constraints := ⟨r.constraints.constraints ++ r.constraints.constraints⟩ }) :=
  have hwf : R1CS.WellFormed ⟨⟨⟨[7]⟩, 3, 1, 1, 0, 3, 1⟩,
      ⟨[⟨⟨[⟨1, ⟨[1]⟩⟩]⟩, ⟨[⟨1, ⟨[1]⟩⟩]⟩, ⟨[⟨2, ⟨[1]⟩⟩]⟩⟩]⟩, ⟨[0, 1, 2]⟩⟩ :=
    ⟨by decide, by decide, by decide, by decide, fun t => by cases t <;> decide⟩
  ⟨hwf, by decide, rfl, read_twice_appends_constraints _ _ hwf _ (by decide) rfl _ _⟩

/-- **Other sections are skipped.**  `R1CS::Read` moves only to the header, the constraints and
the label map.  A file may hold any other sections besides, anywhere: the custom gates sections
and sections of types the reader does not know.  As long as the file holds one header, one
constraints and one label map section, and they carry a well-formed R1CS, reading into an object
without constraints returns `true` and exactly that R1CS. -/
theorem read_skips_other_sections (r s : R1CS) (hwf : r.WellFormed)
    (entries : List (UInt32 × List UInt8)) (hlen : entries.length < 2 ^ 32)
    (hlt : ∀ e ∈ entries, e.2.length < 2 ^ 64)
    (hone : ∀ t ∈ [R1CSSectionType.kHeader, .kConstraints, .kWire2LabelIdMap],
      (entries.filter (·.1 == t.toUInt32)).map (·.2) = [r.payload t])
    (hs : s.constraints.constraints = []) (pre post : List UInt8) :
    s.read ⟨pre ++ encodeSections entries ++ post, pre.length⟩ = (true, r) := by
  rw [read_encodeSections_append r s hwf entries hlen hlt
    (fun t ht => find?_eq_of_filter (hone t ht)), hs, List.nil_append]

/-- The one-constraint circuit in a file that opens with a custom gates list and has a section of
the unknown type `7` between its constraints and its header. -/
theorem read_skips_other_sections_customGates :
    let r : R1CS := ⟨⟨⟨[7]⟩, 3, 1, 1, 0, 3, 1⟩,
      ⟨[⟨⟨[⟨1, ⟨[1]⟩⟩]⟩, ⟨[⟨1, ⟨[1]⟩⟩]⟩, ⟨[⟨2, ⟨[1]⟩⟩]⟩⟩]⟩, ⟨[0, 1, 2]⟩⟩
    let entries : List (UInt32 × List UInt8) := [(4, [0, 0, 0, 0]), (2, r.payload .kConstraints),
      (7, [5]), (1, r.payload .kHeader), (3, r.payload .kWire2LabelIdMap)]
    r.WellFormed ∧ entries.length < 2 ^ 32 ∧ (∀ e ∈ entries, e.2.length < 2 ^ 64) ∧
      (∀ t ∈ [R1CSSectionType.kHeader, .kConstraints, .kWire2LabelIdMap],
        (entries.filter (·.1 == t.toUInt32)).map (·.2) = [r.payload t]) ∧
      (default : R1CS).constraints.constraints = [] ∧
      (default : R1CS).read ⟨[] ++ encodeSections entries ++ [], ([] : List UInt8).length⟩ =
        (true, r) := by
  intro r entries
  have hwf : r.WellFormed :=
    ⟨by decide, by decide, by decide, by decide, fun t => by cases t <;> decide⟩
  have hlen : entries.length < 2 ^ 32 := by decide
  have hlt : ∀ e ∈ entries, e.2.length < 2 ^ 64 := by decide
  have hone : ∀ t ∈ [R1CSSectionType.kHeader, .kConstraints, .kWire2LabelIdMap],
      (entries.filter (·.1 == t.toUInt32)).map (·.2) = [r.payload t] := by decide
  exact ⟨hwf, hlen, hlt, hone, rfl,
    read_skips_other_sections r default hwf entries hlen hlt hone rfl [] []⟩

end R1CS

end Tachyon.Circom
