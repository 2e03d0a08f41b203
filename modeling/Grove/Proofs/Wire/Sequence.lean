import Grove.Proofs.Wire.Qualified

/-! # Sequences of qualified values

A value is written as one byte for its kind, two for its length, the higher one first, and its
payload. Values that stand one after another are read back from left to right, whatever their
namespaces, each from as many bytes as its encoded length. The reading comes to the end of the
namespaces, or to bytes that are no value of the next one.
-/

namespace Grove

variable {n : Namespace}

theorem Descriptor.length_encode (d : Descriptor n) :
    (encode d).length = Wire.encodedLength d := by
  show (encode d.kind.tag ++ encode d.length).length = size
  rw [List.length_append, LawfulWire.length_encode, LawfulWire.length_encode]
  rfl

namespace Qualified

variable {q : Qualified n} {input rest : Bytes}

theorem length_encode (q : Qualified n) : (encode q).length = Wire.encodedLength q := by
  show (encode q.descriptor ++ q.payload).length = Descriptor.size + q.payload.length
  rw [List.length_append, Descriptor.length_encode]
  rfl

/-- The bytes are one for the kind, two for the length, the higher one first, and the payload. -/
structure Frame (q : Qualified n) (high low : UInt8) (bytes : Bytes) : Prop where
  bytes : bytes = q.kind.tag :: high :: low :: q.payload
  length : 256 * high.toNat + low.toNat = q.descriptor.length.toNat

theorem exists_frame (q : Qualified n) : ∃ high low, q.Frame high low (encode q) := by
  have hlt := q.descriptor.length.toNat_lt
  refine ⟨UInt8.ofNat (q.descriptor.length.toNat / 256),
    UInt8.ofNat q.descriptor.length.toNat, ?_, ?_⟩
  · show Bytes.ofNat 1 q.kind.tag.toNat ++ Bytes.ofNat 2 q.descriptor.length.toNat ++ q.payload = _
    simp [Bytes.ofNat]
  · rw [UInt8.toNat_ofNat', UInt8.toNat_ofNat']
    omega

theorem tag_mem_head? (q : Qualified n) (rest : Bytes) :
    q.kind.tag ∈ (encode q ++ rest).head? := by
  obtain ⟨high, low, hframe⟩ := exists_frame q
  rw [hframe.bytes]
  rfl

theorem length_of_decode (h : (Wire.decode (α := Qualified n)).run input = .ok (q, rest)) :
    input.length = Wire.encodedLength q + rest.length := by
  obtain ⟨-, rfl⟩ := decode_eq_ok_iff.1 h
  rw [List.length_append, length_encode]

def encodeSequence (values : List ((n : Namespace) × Qualified n)) : Bytes :=
  values.flatMap fun v => encode v.2

def sequenceLength : List ((n : Namespace) × Qualified n) → Nat
  | [] => 0
  | v :: values => Wire.encodedLength v.2 + sequenceLength values

variable {spaces left : List Namespace} {values before after : List ((n : Namespace) × Qualified n)}
  {v : (n : Namespace) × Qualified n} {failure : Option DecodeError}

theorem encodeSequence_cons :
    encodeSequence (v :: values) = encode v.2 ++ encodeSequence values :=
  List.flatMap_cons

theorem encodeSequence_append :
    encodeSequence (before ++ after) = encodeSequence before ++ encodeSequence after :=
  List.flatMap_append

theorem length_encodeSequence (values : List ((n : Namespace) × Qualified n)) :
    (encodeSequence values).length = sequenceLength values := by
  induction values with
  | nil => rfl
  | cons v values ih =>
    rw [encodeSequence_cons, List.length_append, length_encode, ih]
    rfl

theorem decodeSequence_of_ok (h : (Wire.decode (α := Qualified n)).run input = .ok (q, rest)) :
    decodeSequence (n :: spaces) input =
      (⟨n, q⟩ :: (decodeSequence spaces rest).1, (decodeSequence spaces rest).2) := by
  have hread : (decode (n := n)).run input = .ok (q, rest) := h
  rw [decodeSequence, hread]

theorem decodeSequence_of_error {e : DecodeError}
    (h : (Wire.decode (α := Qualified n)).run input = .error e) :
    decodeSequence (n :: spaces) input = ([], some e, input) := by
  have hread : (decode (n := n)).run input = .error e := h
  rw [decodeSequence, hread]

/-- Where a reading ends: behind the last namespace, or before bytes that are no value of the next
one. -/
inductive Ending : List Namespace → Option DecodeError → Bytes → Prop
  | done {rest : Bytes} : Ending [] none rest
  | stuck {n : Namespace} {spaces : List Namespace} {rest : Bytes} {e : DecodeError}
      (h : (Wire.decode (α := Qualified n)).run rest = .error e) :
      Ending (n :: spaces) (some e) rest

theorem ending_none_iff : Ending left none rest ↔ left = [] := by
  constructor
  · rintro ⟨⟩
    rfl
  · rintro rfl
    exact .done

theorem of_decodeSequence (h : decodeSequence spaces input = (values, failure, rest)) :
    (∀ v ∈ values, v.2.WellFormed) ∧ input = encodeSequence values ++ rest ∧
      ∃ left, spaces = values.map Sigma.fst ++ left ∧ Ending left failure rest := by
  -- The recursion is on the namespaces, so what one value leaves is the input for the others.
  induction spaces generalizing input values with
  | nil =>
    cases h
    exact ⟨nofun, rfl, [], rfl, .done⟩
  | cons n spaces ih =>
    cases hread : (Wire.decode (α := Qualified n)).run input with
    | error e =>
      rw [decodeSequence_of_error hread] at h
      cases h
      exact ⟨nofun, rfl, n :: spaces, rfl, .stuck hread⟩
    | ok p =>
      obtain ⟨q, behind⟩ := p
      obtain ⟨hq, rfl⟩ := decode_eq_ok_iff.1 hread
      rw [decodeSequence_of_ok hread] at h
      obtain ⟨rfl, hrest⟩ := Prod.mk.inj h
      obtain ⟨hvalues, hbytes, left, hspaces, hend⟩ := ih (Prod.ext rfl hrest)
      refine ⟨List.forall_mem_cons.2 ⟨hq, hvalues⟩, ?_, left, congrArg (n :: ·) hspaces, hend⟩
      rw [encodeSequence_cons, List.append_assoc, ← hbytes]

theorem decodeSequence_append (h : ∀ v ∈ values, v.2.WellFormed) (hend : Ending left failure rest) :
    decodeSequence (values.map Sigma.fst ++ left) (encodeSequence values ++ rest) =
      (values, failure, rest) := by
  induction values with
  | nil =>
    cases hend with
    | done => rfl
    | stuck hread => exact decodeSequence_of_error hread
  | cons v values ih =>
    obtain ⟨hv, hvalues⟩ := List.forall_mem_cons.1 h
    have hread : (Wire.decode (α := Qualified v.1)).run
        (encode v.2 ++ (encodeSequence values ++ rest)) =
          .ok (v.2, encodeSequence values ++ rest) :=
      decode_eq_ok_iff.2 ⟨hv, rfl⟩
    rw [encodeSequence_cons, List.append_assoc, List.map_cons, List.cons_append,
      decodeSequence_of_ok hread, ih hvalues]

/-- What a reading gives is told by the bytes alone: they are those of the values that are read, and
then what the reading ends before. -/
theorem decodeSequence_eq_iff :
    decodeSequence spaces input = (values, failure, rest) ↔
      (∀ v ∈ values, v.2.WellFormed) ∧ input = encodeSequence values ++ rest ∧
        ∃ left, spaces = values.map Sigma.fst ++ left ∧ Ending left failure rest := by
  constructor
  · exact of_decodeSequence
  · rintro ⟨hvalues, rfl, left, rfl, hend⟩
    exact decodeSequence_append hvalues hend

theorem decode_drop (h : decodeSequence spaces input = (before ++ v :: after, failure, rest)) :
    (Wire.decode (α := Qualified v.1)).run (input.drop (sequenceLength before)) =
      .ok (v.2, input.drop (sequenceLength before + Wire.encodedLength v.2)) := by
  obtain ⟨hvalues, rfl, -⟩ := of_decodeSequence h
  have hv : v.2.WellFormed := hvalues v (List.mem_append_right _ List.mem_cons_self)
  rw [encodeSequence_append, encodeSequence_cons, List.append_assoc, List.append_assoc,
    ← List.drop_drop, ← length_encodeSequence, List.drop_left, ← length_encode, List.drop_left]
  exact decode_eq_ok_iff.2 ⟨hv, rfl⟩

/-- A byte string starts with a value exactly if the bytes of the value are in front, its kind is
known and its payload is as long as the descriptor says and as the kind demands. Values that stand
one after another are read back with what follows them, and with no others, and each takes as many
bytes as its encoded length. -/
theorem decode_framed :
    (∀ (n : Namespace) (q : Qualified n) (input rest : Bytes),
      (Wire.decode (α := Qualified n)).run input = .ok (q, rest) ↔
        input = encode q ++ rest ∧ q.payload.length = q.descriptor.length.toNat ∧
          (∀ expected ∈ q.kind.fixedLength, q.payload.length = expected.toNat) ∧
          ∃ tag ∈ input.head?, Kind.ofTag? n tag = some q.kind) ∧
    (∀ (n : Namespace) (q : Qualified n),
      (encode q).length = Wire.encodedLength q ∧ ∃ high low, q.Frame high low (encode q)) ∧
    (∀ (spaces : List Namespace) (values : List ((n : Namespace) × Qualified n))
      (input rest : Bytes), decodeSequence spaces input = (values, none, rest) ↔
        spaces = values.map Sigma.fst ∧ (∀ v ∈ values, v.2.WellFormed) ∧
          input = encodeSequence values ++ rest) ∧
    ∀ (spaces : List Namespace) (before after : List ((n : Namespace) × Qualified n))
      (v : (n : Namespace) × Qualified n) (failure : Option DecodeError) (input rest : Bytes),
      decodeSequence spaces input = (before ++ v :: after, failure, rest) →
        ∃ behind, (Wire.decode (α := Qualified v.1)).run (input.drop (sequenceLength before)) =
          .ok (v.2, behind) ∧
          (input.drop (sequenceLength before)).length = Wire.encodedLength v.2 + behind.length := by
  refine ⟨fun n q input rest => ?_, fun n q => ⟨length_encode q, exists_frame q⟩,
    fun spaces values input rest => ?_, fun spaces before after v failure input rest h => ?_⟩
  · rw [decode_eq_ok_iff, wellFormed_iff_lengths]
    constructor
    · rintro ⟨⟨hlength, hfixed⟩, rfl⟩
      exact ⟨rfl, hlength, hfixed, q.kind.tag, tag_mem_head? q rest, Kind.ofTag?_tag q.kind⟩
    · rintro ⟨rfl, hlength, hfixed, -⟩
      exact ⟨⟨hlength, hfixed⟩, rfl⟩
  · simp only [decodeSequence_eq_iff, ending_none_iff, exists_eq_right, List.append_nil]
    exact ⟨fun ⟨hvalues, hbytes, hspaces⟩ => ⟨hspaces, hvalues, hbytes⟩,
      fun ⟨hspaces, hvalues, hbytes⟩ => ⟨hvalues, hbytes, hspaces⟩⟩
  · have hread := decode_drop h
    exact ⟨_, hread, length_of_decode hread⟩

/-- Behind a null hash, a text of two bytes is read, and a ninth byte is left over. -/
theorem decode_framed_null_text :
    decodeSequence [.hash, .content] [0, 0, 0, 1, 0, 2, 104, 105, 9] =
        ([⟨.hash, Hash.null⟩, ⟨.content, ⟨⟨.utf8, 2⟩, [104, 105]⟩⟩], none, [9]) ∧
      ∃ behind, (Wire.decode (α := Content)).run [1, 0, 2, 104, 105, 9] =
        .ok (⟨⟨.utf8, 2⟩, [104, 105]⟩, behind) ∧ 6 = 5 + behind.length := by
  obtain ⟨-, -, hsequence, hplaces⟩ := decode_framed
  have hread : decodeSequence [.hash, .content] [0, 0, 0, 1, 0, 2, 104, 105, 9] =
      ([⟨.hash, Hash.null⟩, ⟨.content, ⟨⟨.utf8, 2⟩, [104, 105]⟩⟩], none, [9]) :=
    (hsequence ..).2 ⟨rfl, by decide, by decide⟩
  exact ⟨hread, hplaces _ [⟨.hash, Hash.null⟩] [] _ _ _ _ hread⟩

end Qualified

end Grove
