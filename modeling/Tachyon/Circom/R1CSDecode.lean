import Tachyon.Circom.R1CSRoundTrip
import Tachyon.Circom.R1CSPartialRead

/-!
# What `R1CS::Read` accepts

`R1CSRoundTrip` shows that `R1CS::Read` returns every well-formed R1CS from its encoding.  This
file shows the converse.  When `R1CS::Read` returns `true` on an object that held no constraints,
the object it leaves is well formed, and each of its three sections is encoded, byte for byte,
from the offset where `MoveTo` put the buffer (`read_accepts_only_encodings`).  So the reader
accepts encodings and nothing else: no file is read into a value the format could not carry.

Each reader's converse is a `Decodes` fact (for the value readers) or a `DecodesInto` fact (for
the `Read` methods, which update an object), assembled from those of its parts as the round trip
was.  The counts in the header bound what the section readers read.  The sizes in the section
table only locate the sections, so nothing here says that a payload ends where its section does.
-/

namespace Tachyon.Circom

open Base ReadOnlyBuffer

lemma ofNat_toNat_uint32 (v : UInt32) : UInt32.ofNat v.toNat = v :=
  UInt32.toNat.inj (UInt32.toNat_ofNat_of_lt v.toNat_lt_size)

/-! ## Values -/

section Values

variable {fieldSize : UInt32}

lemma PrimeField.decodes_readSized :
    Decodes (PrimeField.readSized fieldSize) fun p enc =>
      enc = p.bytes ∧ p.bytes.length = fieldSize.toNat :=
  ((decodes_readBytes _).bind fun _ => decodes_pure _).mono <| by
    rintro _ _ ⟨_, _, _, ⟨rfl, hlen⟩, ⟨rfl, rfl⟩, rfl⟩
    exact ⟨List.append_nil _, hlen⟩

lemma PrimeField.decodes_read :
    Decodes PrimeField.read fun p enc => enc = p.encode ∧ p.bytes.length < 2 ^ 32 :=
  (decodes_readU32.bind fun _ => decodes_readSized).mono <| by
    rintro p _ ⟨fs, _, _, rfl, ⟨rfl, hlen⟩, rfl⟩
    refine ⟨by rw [PrimeField.encode, hlen, ofNat_toNat_uint32], hlen ▸ fs.toNat_lt_size⟩

lemma decodes_readTerm :
    Decodes (readTerm fieldSize) fun t enc =>
      enc = t.encode ∧ t.coefficient.bytes.length = fieldSize.toNat :=
  (decodes_readU32.bind fun _ => PrimeField.decodes_readSized.bind fun _ =>
    decodes_pure _).mono <| by
    rintro _ _ ⟨_, _, _, rfl, ⟨_, _, _, ⟨rfl, hc⟩, ⟨rfl, rfl⟩, rfl⟩, rfl⟩
    exact ⟨by simp [Term.encode], hc⟩

lemma decodes_readTerms :
    ∀ n, Decodes (readTerms fieldSize n) fun ts enc => enc = ts.flatMap Term.encode ∧
      ts.length = n ∧ ∀ t ∈ ts, t.coefficient.bytes.length = fieldSize.toNat
  | 0 => (decodes_pure _).mono <| by
    rintro _ _ ⟨rfl, rfl⟩
    simp
  | n + 1 => (decodes_readTerm.bind fun _ => (decodes_readTerms n).bind fun _ =>
      decodes_pure _).mono <| by
    rintro _ _ ⟨_, _, _, ⟨rfl, ht⟩, ⟨_, _, _, ⟨rfl, rfl, hts⟩, ⟨rfl, rfl⟩, rfl⟩, rfl⟩
    exact ⟨by simp, by simp, List.forall_mem_cons.2 ⟨ht, hts⟩⟩

lemma decodes_readLinearCombination :
    Decodes (readLinearCombination fieldSize) fun lc enc =>
      enc = lc.encode ∧ lc.Fits fieldSize.toNat :=
  (decodes_readU32.bind fun n => (decodes_readTerms n.toNat).bind fun _ =>
    decodes_pure _).mono <| by
    rintro _ _ ⟨n, _, _, rfl, ⟨_, _, _, ⟨rfl, hlen, hts⟩, ⟨rfl, rfl⟩, rfl⟩, rfl⟩
    refine ⟨?_, hlen ▸ n.toNat_lt_size, hts⟩
    simp only [LinearCombination.encode, hlen, ofNat_toNat_uint32, List.append_nil]

lemma decodes_readConstraint :
    Decodes (readConstraint fieldSize) fun c enc => enc = c.encode ∧ c.Fits fieldSize.toNat :=
  (decodes_readLinearCombination.bind fun _ => decodes_readLinearCombination.bind fun _ =>
    decodes_readLinearCombination.bind fun _ => decodes_pure _).mono <| by
    rintro _ _ ⟨_, _, _, ⟨rfl, ha⟩, ⟨_, _, _, ⟨rfl, hb⟩, ⟨_, _, _, ⟨rfl, hc⟩, ⟨rfl, rfl⟩, rfl⟩,
      rfl⟩, rfl⟩
    exact ⟨by simp [Constraint.encode], ha, hb, hc⟩

end Values

/-! ## Sections -/

/-- Whenever `read` succeeds from the state `s`, leaving `s'`, it moved past bytes `enc` with
`R s s' enc`. -/
def DecodesInto {S : Type} (read : S → ReadOnlyBuffer → S × Option ReadOnlyBuffer)
    (R : S → S → List UInt8 → Prop) : Prop :=
  ∀ s b s' b', read s b = (s', some b') → ∃ enc, R s s' enc ∧ b.Consumed enc b'

section DecodesInto

variable {S α : Type} {read : S → ReadOnlyBuffer → S × Option ReadOnlyBuffer}
  {R R' : S → S → List UInt8 → Prop}

lemma DecodesInto.mono (h : DecodesInto read R) (hR : ∀ s s' enc, R s s' enc → R' s s' enc) :
    DecodesInto read R' :=
  fun s b s' b' hr => (h s b s' b' hr).imp fun enc => And.imp_left (hR s s' enc)

lemma decodesInto_done :
    DecodesInto (fun (s : S) b => (s, some b)) fun s s' enc => s' = s ∧ enc = [] := by
  rintro s b _ _ ⟨⟩
  exact ⟨[], ⟨rfl, rfl⟩, consumed_nil b⟩

lemma decodesInto_readInto {r : Reader α} {Rr : α → List UInt8 → Prop} {store : S → α → S}
    (hr : Decodes r Rr) (hn : DecodesInto read R) :
    DecodesInto (readInto r store read) fun s s' enc =>
      ∃ v e₁ e₂, Rr v e₁ ∧ R (store s v) s' e₂ ∧ enc = e₁ ++ e₂ := by
  intro s b s' b' h
  rcases hrun : r.run b with _ | ⟨v, b₁⟩ <;> simp only [readInto, hrun] at h
  · cases h
  · obtain ⟨e₁, hR₁, hb₁⟩ := hr b v b₁ hrun
    obtain ⟨e₂, hR₂, hb₂⟩ := hn _ _ _ _ h
    exact ⟨_, ⟨v, e₁, e₂, hR₁, hR₂, rfl⟩, hb₁.trans hb₂⟩

end DecodesInto

/-- A header that `R1CSHeaderSection::Read` reads, whatever it overwrote, is encoded where the
read began. -/
lemma R1CSHeaderSection.decodesInto_read :
    DecodesInto R1CSHeaderSection.read fun _ h enc =>
      enc = h.encode ∧ h.modulus.bytes.length < 2 ^ 32 :=
  (decodesInto_readInto PrimeField.decodes_read <| decodesInto_readInto decodes_readU32 <|
    decodesInto_readInto decodes_readU32 <| decodesInto_readInto decodes_readU32 <|
    decodesInto_readInto decodes_readU32 <| decodesInto_readInto decodes_readU64 <|
    decodesInto_readInto decodes_readU32 decodesInto_done).mono <| by
    intro _ _ _ hR
    dsimp only at hR
    obtain ⟨_, _, _, ⟨h₁, hm⟩, ⟨_, _, _, h₂, ⟨_, _, _, h₃, ⟨_, _, _, h₄, ⟨_, _, _, h₅, ⟨_, _, _, h₆,
      ⟨_, _, _, h₇, ⟨h₈, h₉⟩, h₁₀⟩, h₁₁⟩, h₁₂⟩, h₁₃⟩, h₁₄⟩, h₁₅⟩, h₁₆⟩ := hR
    subst_vars
    exact ⟨by simp [R1CSHeaderSection.encode], hm⟩

lemma decodesInto_readConstraintsLoop (fieldSize : UInt32) :
    ∀ n, DecodesInto (readConstraintsLoop fieldSize n) fun s s' enc => ∃ cs : List Constraint,
      s'.constraints = s.constraints ++ cs ∧ cs.length = n ∧
        (∀ c ∈ cs, c.Fits fieldSize.toNat) ∧ enc = cs.flatMap Constraint.encode
  | 0 => by
    rintro s b _ _ ⟨⟩
    exact ⟨[], ⟨[], by simp, rfl, by simp, rfl⟩, consumed_nil b⟩
  | n + 1 => by
    intro s b s' b' h
    rcases hrun : (readConstraint fieldSize).run b with _ | ⟨c, b₁⟩ <;>
      simp only [readConstraintsLoop, hrun] at h
    · cases h
    · obtain ⟨_, ⟨rfl, hc⟩, hb₁⟩ := decodes_readConstraint b c b₁ hrun
      obtain ⟨_, ⟨cs, hs', hlen, hcs, rfl⟩, hb₂⟩ :=
        decodesInto_readConstraintsLoop fieldSize n _ _ _ _ h
      exact ⟨_, ⟨c :: cs, by simpa using hs', by simp [hlen], List.forall_mem_cons.2 ⟨hc, hcs⟩,
        rfl⟩, hb₁.trans hb₂⟩

/-- `R1CSConstraintsSection::Read` pushes `num_constraints` constraints with coefficients of the
modulus's size, encoded where the read began. -/
lemma R1CSConstraintsSection.decodesInto_read (header : R1CSHeaderSection)
    (hm : header.modulus.bytes.length < 2 ^ 32) :
    DecodesInto (fun (s : R1CSConstraintsSection) b => s.read b header) fun s s' enc =>
      ∃ cs : List Constraint, s'.constraints = s.constraints ++ cs ∧
        cs.length = header.numConstraints.toNat ∧
        (∀ c ∈ cs, c.Fits header.modulus.bytes.length) ∧ enc = cs.flatMap Constraint.encode := by
  have h := decodesInto_readConstraintsLoop (UInt32.ofNat header.modulus.bytes.length)
    header.numConstraints.toNat
  rwa [UInt32.toNat_ofNat_of_lt hm] at h

lemma readLabelIdsLoop_decodes :
    ∀ n i (s : R1CSWireId2LabelIdMapSection) b s' b', s.labelIds.length = i + n →
      readLabelIdsLoop n i s b = (s', some b') → ∃ ids : List UInt64, ids.length = n ∧
        s'.labelIds = s.labelIds.take i ++ ids ∧ b.Consumed (ids.flatMap encodeU64) b'
  | 0, i, s, b, s', b', hlen, h => by
    simp only [readLabelIdsLoop, Prod.mk.injEq, Option.some.injEq] at h
    obtain ⟨rfl, rfl⟩ := h
    exact ⟨[], rfl, by rw [List.append_nil, List.take_of_length_le (by omega)], consumed_nil _⟩
  | n + 1, i, s, b, s', b', hlen, h => by
    rcases hrun : readU64.run b with _ | ⟨v, b₁⟩ <;> simp only [readLabelIdsLoop, hrun] at h
    · cases h
    · obtain ⟨_, rfl, hb₁⟩ := decodes_readU64 b v b₁ hrun
      obtain ⟨ids, hids, hs', hb₂⟩ :=
        readLabelIdsLoop_decodes n (i + 1) _ _ _ _ (by rw [List.length_set, hlen]; omega) h
      refine ⟨v :: ids, by simp [hids], ?_, hb₁.trans hb₂⟩
      rw [hs', take_succ_set (by omega), List.append_assoc, List.singleton_append]

/-- `R1CSWireId2LabelIdMapSection::Read` leaves `num_wires` label ids, encoded where the read
began. -/
lemma R1CSWireId2LabelIdMapSection.decodesInto_read (header : R1CSHeaderSection) :
    DecodesInto (fun (s : R1CSWireId2LabelIdMapSection) b => s.read b header) fun _ s' enc =>
      s'.labelIds.length = header.numWires.toNat ∧ enc = s'.encode := by
  intro s b s' b' h
  obtain ⟨ids, hids, hs', hb⟩ :=
    readLabelIdsLoop_decodes _ 0 _ b s' b' (by simp [length_resize]) h
  rw [List.take_zero, List.nil_append] at hs'
  exact ⟨_, ⟨by rw [hs', hids], by rw [R1CSWireId2LabelIdMapSection.encode, hs']⟩, hb⟩

/-! ## The whole file -/

lemma readSectionEntries_bytes :
    ∀ n {b b' : ReadOnlyBuffer} {sections : List Section},
      (readSectionEntries n).run b = some (sections, b') → b'.bytes = b.bytes
  | 0, _, _, _, h => by
    obtain ⟨-, rfl⟩ := Prod.mk.inj (Option.some.inj h)
    rfl
  | n + 1, b, b', sections, h => by
    simp only [readSectionEntries, StateT.run_bind, Option.bind_eq_bind, Option.bind_eq_some,
      StateT.run_get, StateT.run_set, StateT.run_pure] at h
    obtain ⟨⟨t, b₁⟩, h₁, ⟨sz, b₂⟩, h₂, _, ⟨⟩, _, ⟨⟩, ⟨secs, b₃⟩, h₃, ⟨⟩⟩ := h
    obtain ⟨_, -, hb₁⟩ := decodes_readU32 b t b₁ h₁
    obtain ⟨_, -, hb₂⟩ := decodes_readU64 b₁ sz b₂ h₂
    rw [readSectionEntries_bytes n h₃, bytes_setOffset, hb₂.bytes_eq, hb₁.bytes_eq]

lemma Sections.read_bytes {b b' : ReadOnlyBuffer} {sections : List Section}
    (h : Sections.read.run b = some (sections, b')) : b'.bytes = b.bytes := by
  rw [Sections.read, StateT.run_bind, Option.bind_eq_bind, Option.bind_eq_some] at h
  obtain ⟨⟨n, b₁⟩, h₁, h₂⟩ := h
  obtain ⟨_, -, hb₁⟩ := decodes_readU32 b n b₁ h₁
  rw [readSectionEntries_bytes _ h₂, hb₁.bytes_eq]

lemma Sections.moveTo_eq_some {sections : List Section} {t : R1CSSectionType}
    {b b' : ReadOnlyBuffer} (h : Sections.moveTo sections t b = some b') :
    ∃ s, sections.find? (·.sectionType == t.toUInt32) = some s ∧ b' = b.setOffset s.sectionOffset :=
  (Option.map_eq_some'.1 h).imp fun _ => And.imp_right Eq.symm

namespace R1CS

/-- Everything `R1CS::Read` does when it returns `true`: the section table is read, and each
section is found and read in turn, into the header, constraints and label map it returns. -/
lemma read_eq_true {r r' : R1CS} {b : ReadOnlyBuffer} (h : r.read b = (true, r')) :
    ∃ sections b₀ b₁ b₂ b₃ b₄ b₅ b₆, Sections.read.run b = some (sections, b₀) ∧
      Sections.moveTo sections .kHeader b₀ = some b₁ ∧
      r.header.read b₁ = (r'.header, some b₂) ∧
      Sections.moveTo sections .kConstraints b₂ = some b₃ ∧
      r.constraints.read b₃ r'.header = (r'.constraints, some b₄) ∧
      Sections.moveTo sections .kWire2LabelIdMap b₄ = some b₅ ∧
      r.wireIdToLabelIdMap.read b₅ r'.header = (r'.wireIdToLabelIdMap, some b₆) := by
  revert h
  unfold R1CS.read
  rcases h₀ : Sections.read.run b with _ | ⟨sections, b₀⟩
  · rintro ⟨⟩
  dsimp only
  rcases h₁ : Sections.moveTo sections .kHeader b₀ with _ | b₁
  · rintro ⟨⟩
  dsimp only
  rcases h₂ : r.header.read b₁ with ⟨header, _ | b₂⟩
  · rintro ⟨⟩
  dsimp only
  rcases h₃ : Sections.moveTo sections .kConstraints b₂ with _ | b₃
  · rintro ⟨⟩
  dsimp only
  rcases h₄ : r.constraints.read b₃ header with ⟨constraints, _ | b₄⟩
  · rintro ⟨⟩
  dsimp only
  rcases h₅ : Sections.moveTo sections .kWire2LabelIdMap b₄ with _ | b₅
  · rintro ⟨⟩
  dsimp only
  rcases h₆ : r.wireIdToLabelIdMap.read b₅ header with ⟨labels, _ | b₆⟩
  · rintro ⟨⟩
  rintro ⟨⟩
  exact ⟨sections, b₀, b₁, b₂, b₃, b₄, b₅, b₆, rfl, h₁, h₂, h₃, h₄, h₅, h₆⟩

/-- **Only encodings are accepted.**  When `R1CS::Read` returns `true` on an object that held no
constraints, as a default-constructed one, and the buffer is shorter than `2^64` bytes, what it
leaves is a well-formed R1CS.  Each of its header, constraints and label map sections is encoded
byte for byte from the payload offset where `MoveTo` put the buffer: with the `MoveTo` of this
model, that of the first table entry of its type. -/
theorem read_accepts_only_encodings {r r' : R1CS} {b : ReadOnlyBuffer}
    (hr : r.constraints.constraints = []) (hlen : b.bytes.length < 2 ^ 64)
    (h : r.read b = (true, r')) :
    r'.WellFormed ∧ ∃ sections b₀, Sections.read.run b = some (sections, b₀) ∧
      ∀ t ∈ [R1CSSectionType.kHeader, .kConstraints, .kWire2LabelIdMap], ∃ s,
        sections.find? (·.sectionType == t.toUInt32) = some s ∧
          r'.payload t <+: b.bytes.drop s.sectionOffset := by
  obtain ⟨sections, b₀, b₁, b₂, b₃, b₄, b₅, b₆, h₀, h₁, h₂, h₃, h₄, h₅, h₆⟩ := read_eq_true h
  have hb₀ := Sections.read_bytes h₀
  obtain ⟨s₁, hs₁, rfl⟩ := Sections.moveTo_eq_some h₁
  obtain ⟨_, ⟨rfl, hm⟩, hb₂⟩ := R1CSHeaderSection.decodesInto_read _ _ _ _ h₂
  obtain ⟨s₃, hs₃, rfl⟩ := Sections.moveTo_eq_some h₃
  obtain ⟨_, ⟨cs, hcs, hncs, hfit, rfl⟩, hb₄⟩ :=
    R1CSConstraintsSection.decodesInto_read _ hm _ _ _ _ h₄
  obtain ⟨s₅, hs₅, rfl⟩ := Sections.moveTo_eq_some h₅
  obtain ⟨_, ⟨hids, rfl⟩, hb₆⟩ := R1CSWireId2LabelIdMapSection.decodesInto_read _ _ _ _ _ h₆
  rw [hr, List.nil_append] at hcs
  have hpayload : ∀ t ∈ [R1CSSectionType.kHeader, .kConstraints, .kWire2LabelIdMap], ∃ s,
      sections.find? (·.sectionType == t.toUInt32) = some s ∧
        r'.payload t <+: b.bytes.drop s.sectionOffset := by
    simp only [List.mem_cons, List.mem_singleton, List.not_mem_nil, or_false]
    rintro t (rfl | rfl | rfl)
    · exact ⟨s₁, hs₁, by simpa [hb₀] using hb₂.1⟩
    · refine ⟨s₃, hs₃, ?_⟩
      simpa [R1CS.payload, R1CSConstraintsSection.encode, hcs, hb₂.bytes_eq, hb₀] using hb₄.1
    · exact ⟨s₅, hs₅, by simpa [hb₄.bytes_eq, hb₂.bytes_eq, hb₀] using hb₆.1⟩
  have hlt : ∀ t ∈ [R1CSSectionType.kHeader, .kConstraints, .kWire2LabelIdMap],
      (r'.payload t).length < 2 ^ 64 := fun t ht => by
    obtain ⟨s, -, hp⟩ := hpayload t ht
    exact lt_of_le_of_lt (hp.length_le.trans (by simp)) hlen
  refine ⟨⟨hm, by rw [hcs, hncs], by rwa [hcs], hids, fun t => ?_⟩, sections, b₀, h₀, hpayload⟩
  cases t
  case kCustomGatesList | kCustomGatesApplication => simp [R1CS.payload]
  all_goals exact hlt _ (by simp)

/-- The one-constraint circuit in a file with its label map first and a section of the unknown
type `7` after it, read into a default-constructed object. -/
theorem read_accepts_only_encodings_labelsFirst :
    let r : R1CS := ⟨⟨⟨[7]⟩, 3, 1, 1, 0, 3, 1⟩,
      ⟨[⟨⟨[⟨1, ⟨[1]⟩⟩]⟩, ⟨[⟨1, ⟨[1]⟩⟩]⟩, ⟨[⟨2, ⟨[1]⟩⟩]⟩⟩]⟩, ⟨[0, 1, 2]⟩⟩
    let entries : List (UInt32 × List UInt8) := [(3, r.payload .kWire2LabelIdMap), (7, [5]),
      (1, r.payload .kHeader), (2, r.payload .kConstraints)]
    let b : ReadOnlyBuffer := ⟨[] ++ encodeSections entries ++ [], ([] : List UInt8).length⟩
    (default : R1CS).constraints.constraints = [] ∧ b.bytes.length < 2 ^ 64 ∧
      (default : R1CS).read b = (true, r) ∧
      (r.WellFormed ∧ ∃ sections b₀, Sections.read.run b = some (sections, b₀) ∧
        ∀ t ∈ [R1CSSectionType.kHeader, .kConstraints, .kWire2LabelIdMap], ∃ s,
          sections.find? (·.sectionType == t.toUInt32) = some s ∧
            r.payload t <+: b.bytes.drop s.sectionOffset) := by
  intro r entries b
  have hwf : r.WellFormed :=
    ⟨by decide, by decide, by decide, by decide, fun t => by cases t <;> decide⟩
  have h : (default : R1CS).read b = (true, r) :=
    read_encodeSections_append r default hwf entries (by decide) (by decide) (by decide) [] []
  have hlen : b.bytes.length < 2 ^ 64 := by
    simp [b, entries, r, encodeSections, encodeSectionEntries, encodeSection, R1CS.payload,
      R1CSHeaderSection.encode, R1CSConstraintsSection.encode,
      R1CSWireId2LabelIdMapSection.encode, Constraint.encode, LinearCombination.encode,
      Term.encode, PrimeField.encode]
  exact ⟨rfl, hlen, h, read_accepts_only_encodings rfl hlen h⟩

end R1CS

end Tachyon.Circom
