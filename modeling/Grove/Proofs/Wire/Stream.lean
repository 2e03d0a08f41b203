import Grove.Proofs.Wire.Truncation

/-! # Streams of nodes

Nodes that stand one after another are read back one by one, and the bytes of a stream belong to one
list of nodes only. If the bytes end early, the nodes whose bytes are all there are read, no other
node is, and the failure says that the input is too short.
-/

namespace Grove.Node

variable {n : Node} {nodes : List Node} {input rest : Bytes}

theorem encode_ne_nil (n : Node) : n.encode ≠ [] := by
  have hversion : Wire.encode n.version ≠ [] :=
    List.ne_nil_of_length_pos ((Bytes.length_ofNat 2 _).symm ▸ Nat.two_pos)
  simp [encode, signedBytes, Header.encode, hversion]

theorem length_lt_of_decode (h : decode.run input = .ok (n, rest)) :
    rest.length < input.length := by
  obtain ⟨-, rfl⟩ := decode_eq_ok_iff.1 h
  rw [List.length_append]
  exact Nat.lt_add_of_pos_left (List.length_pos_iff.2 n.encode_ne_nil)

namespace decodeStream

variable {bound bound' : Nat} {read : List Node}

theorem go_nil : go bound read [] = (read.reverse, none, []) := by
  cases bound <;> rfl

theorem go_of_ok (h : decode.run input = .ok (n, rest)) :
    go (bound + 1) read input = go bound (n :: read) rest := by
  have hne : input ≠ [] := fun hnil => by
    simpa [hnil] using length_lt_of_decode h
  rw [go, h]
  exact hne

theorem go_of_error {e : NodeError} (hne : input ≠ []) (h : decode.run input = .error e) :
    go (bound + 1) read input = (read.reverse, some e, input) := by
  rw [go, h]
  exact hne

theorem go_congr (hbound : input.length ≤ bound) (hbound' : input.length ≤ bound') :
    go bound read input = go bound' read input := by
  induction bound generalizing bound' read input with
  | zero =>
    obtain rfl := List.eq_nil_of_length_eq_zero (Nat.le_zero.1 hbound)
    rw [go_nil, go_nil]
  | succ bound ih =>
    by_cases hne : input = []
    · subst hne
      rw [go_nil, go_nil]
    cases bound' with
    | zero => exact absurd (List.eq_nil_of_length_eq_zero (Nat.le_zero.1 hbound')) hne
    | succ bound' =>
      cases h : decode.run input with
      | ok p =>
        have hlt := length_lt_of_decode h
        rw [go_of_ok h, go_of_ok h]
        exact ih (by omega) (by omega)
      | error e => rw [go_of_error hne h, go_of_error hne h]

theorem go_eq (bound : Nat) (read : List Node) (input : Bytes) :
    go bound read input = (read.reverse ++ (go bound [] input).1, (go bound [] input).2) := by
  induction bound generalizing read input with
  | zero => cases input <;> simp [go]
  | succ bound ih =>
    by_cases hne : input = []
    · subst hne
      simp [go_nil]
    cases h : decode.run input with
    | ok p =>
      rw [go_of_ok h, go_of_ok h, ih, ih [p.1]]
      simp
    | error e =>
      rw [go_of_error hne h, go_of_error hne h]
      simp

end decodeStream

open decodeStream

@[simp] theorem decodeStream_nil : decodeStream [] = ([], none, []) :=
  go_nil

theorem decodeStream_of_ok (h : decode.run input = .ok (n, rest)) :
    decodeStream input = (n :: (decodeStream rest).1, (decodeStream rest).2) := by
  have hlt := length_lt_of_decode h
  obtain ⟨bound, hbound⟩ := Nat.exists_eq_add_one_of_ne_zero (Nat.ne_zero_of_lt hlt)
  have hrest : go bound [] rest = decodeStream rest :=
    go_congr (by omega) (Nat.le_refl _)
  rw [decodeStream, hbound, go_of_ok h, go_eq, hrest]
  rfl

theorem decodeStream_of_error {e : NodeError} (hne : input ≠ []) (h : decode.run input = .error e) :
    decodeStream input = ([], some e, input) := by
  obtain ⟨bound, hbound⟩ :=
    Nat.exists_eq_add_one_of_ne_zero (mt List.eq_nil_of_length_eq_zero hne)
  rw [decodeStream, hbound, go_of_error hne h]
  rfl

theorem decodeStream_append (h : n.Sealed) (rest : Bytes) :
    decodeStream (n.encode ++ rest) = (n :: (decodeStream rest).1, (decodeStream rest).2) :=
  decodeStream_of_ok (h.consumes.read rest)

theorem decodeStream_take_encode {cut : Nat} (h : n.Sealed) (hcut : cut < n.encode.length)
    (hne : cut ≠ 0) :
    ∃ e, decodeStream (n.encode.take cut) = ([], some e, n.encode.take cut) ∧ e.IsShortage := by
  obtain ⟨e, he, hshort⟩ := h.consumes.starves _ _ (List.take_append_drop cut n.encode)
    (mt List.drop_eq_nil_iff.1 (Nat.not_le.2 hcut))
  have hfront : n.encode.take cut ≠ [] := by
    simpa [List.take_eq_nil_iff, encode_ne_nil] using hne
  exact ⟨e, decodeStream_of_error hfront he, hshort⟩

def encodeStream (nodes : List Node) : Bytes :=
  nodes.flatMap encode

@[simp] theorem encodeStream_cons (n : Node) (nodes : List Node) :
    encodeStream (n :: nodes) = n.encode ++ encodeStream nodes :=
  List.flatMap_cons

theorem decodeStream_encodeStream (h : ∀ n ∈ nodes, n.Sealed) :
    decodeStream (encodeStream nodes) = (nodes, none, []) := by
  induction nodes with
  | nil => exact decodeStream_nil
  | cons n nodes ih =>
    obtain ⟨hn, hnodes⟩ := List.forall_mem_cons.1 h
    rw [encodeStream_cons, decodeStream_append hn, ih hnodes]

/-- What a cut leaves of a stream: the nodes that end at or before it, and the bytes that there are
of the node that it falls in. -/
structure Severed (nodes : List Node) (cut : Nat) (whole : List Node) (torn : Bytes) : Prop where
  first : whole <+: nodes
  ends : ∀ front, front <+: nodes → ((encodeStream front).length ≤ cut ↔ front <+: whole)
  bytes : encodeStream whole ++ torn = (encodeStream nodes).take cut

variable {cut : Nat} {whole : List Node} {torn : Bytes}

theorem severed_nil (cut : Nat) : Severed [] cut [] [] where
  first := List.prefix_rfl
  ends front hfront := by simp [encodeStream, List.prefix_nil.1 hfront]
  bytes := by simp [encodeStream]

theorem Severed.cons (h : Severed nodes cut whole torn) (n : Node) :
    Severed (n :: nodes) (n.encode.length + cut) (n :: whole) torn where
  first := (List.prefix_cons_inj n).2 h.first
  ends front hfront := by
    rcases List.prefix_cons_iff.1 hfront with rfl | ⟨front', rfl, hfront'⟩
    · simp [encodeStream]
    · rw [encodeStream_cons, List.length_append, Nat.add_le_add_iff_left, h.ends front' hfront',
        List.prefix_cons_inj]
  bytes := by
    rw [encodeStream_cons, encodeStream_cons, List.append_assoc, h.bytes,
      List.take_length_add_append]

theorem severed_first (hcut : cut < n.encode.length) :
    Severed (n :: nodes) cut [] (n.encode.take cut) where
  first := List.nil_prefix
  ends front hfront := by
    rcases List.prefix_cons_iff.1 hfront with rfl | ⟨front', rfl, -⟩
    · simp [encodeStream]
    · rw [encodeStream_cons, List.length_append, List.prefix_nil]
      exact iff_of_false (by omega) (List.cons_ne_nil n front')
  bytes := by
    rw [encodeStream_cons, List.take_append_of_le_length (Nat.le_of_lt hcut)]
    rfl

theorem decodeStream_of_severed (h : ∀ n ∈ nodes, n.Sealed) (cut : Nat) :
    ∃ whole torn, Severed nodes cut whole torn ∧
      ((torn = [] ∧ decodeStream ((encodeStream nodes).take cut) = (whole, none, [])) ∨
        (torn ≠ [] ∧ ∃ e, decodeStream ((encodeStream nodes).take cut) = (whole, some e, torn) ∧
          e.IsShortage)) := by
  induction nodes generalizing cut with
  | nil => exact ⟨[], [], severed_nil cut, .inl ⟨rfl, by simp [encodeStream]⟩⟩
  | cons n nodes ih =>
    obtain ⟨hn, hnodes⟩ := List.forall_mem_cons.1 h
    by_cases hcut : cut < n.encode.length
    · have htake : (encodeStream (n :: nodes)).take cut = n.encode.take cut := by
        rw [← (severed_first hcut).bytes]
        rfl
      refine ⟨[], n.encode.take cut, severed_first hcut, ?_⟩
      rw [htake]
      by_cases hzero : cut = 0
      · subst hzero
        exact .inl ⟨rfl, decodeStream_nil⟩
      · obtain ⟨e, he, hshort⟩ := decodeStream_take_encode hn hcut hzero
        refine .inr ⟨?_, e, he, hshort⟩
        simpa [List.take_eq_nil_iff, encode_ne_nil] using hzero
    · obtain ⟨cut, rfl⟩ := Nat.exists_eq_add_of_le (Nat.le_of_not_lt hcut)
      obtain ⟨whole, torn, hsevered, hread⟩ := ih hnodes cut
      refine ⟨n :: whole, torn, hsevered.cons n, ?_⟩
      rw [encodeStream_cons, List.take_length_add_append, decodeStream_append hn]
      rcases hread with ⟨htorn, hread⟩ | ⟨htorn, e, hread, hshort⟩
      · exact .inl ⟨htorn, by rw [hread]⟩
      · exact .inr ⟨htorn, e, by rw [hread], hshort⟩

/-- From a stream that is cut anywhere, exactly the nodes that end at or before the cut are read. If
the cut falls in a node, the reading ends there with a field that needs more bytes than there are.
So the bytes of a stream are those of no other nodes. -/
theorem decodeStream_take (h : ∀ n ∈ nodes, n.Sealed) :
    (∀ cut, ∃ whole torn failure, Severed nodes cut whole torn ∧
      decodeStream ((encodeStream nodes).take cut) = (whole, failure, torn) ∧
      (torn = [] → failure = none) ∧
      (torn ≠ [] → ∃ field needed available,
        failure = some (.field field (.truncated needed available)) ∧ available < needed)) ∧
    ∀ others, (∀ n ∈ others, n.Sealed) → encodeStream others = encodeStream nodes →
      others = nodes := by
  constructor
  · intro cut
    obtain ⟨whole, torn, hsevered, hread⟩ := decodeStream_of_severed h cut
    rcases hread with ⟨htorn, hread⟩ | ⟨htorn, _, hread, field, _, rfl, needed, available, rfl, hlt⟩
    · exact ⟨whole, torn, none, hsevered, htorn ▸ hread, fun _ => rfl, fun hne => absurd htorn hne⟩
    · exact ⟨whole, torn, _, hsevered, hread, fun hnil => absurd hnil htorn,
        fun _ => ⟨field, needed, available, rfl, hlt⟩⟩
  · intro others hothers heq
    have hread := decodeStream_encodeStream hothers
    rw [heq, decodeStream_encodeStream h] at hread
    exact (congrArg Prod.fst hread).symm

/-- The second of two replies is cut off behind its ninth byte, so the first is read alone. -/
theorem decodeStream_take_second_reply :
    (∀ n ∈ [unsignedReply, unsignedReply], n.Sealed) ∧
      ∃ torn field needed available,
        decodeStream ((encodeStream [unsignedReply, unsignedReply]).take
          (unsignedReply.encode.length + 9)) =
            ([unsignedReply], some (.field field (.truncated needed available)), torn) ∧
        available < needed ∧ torn.length = 9 := by
  have hsealed : ∀ n ∈ [unsignedReply, unsignedReply], n.Sealed := by
    simp [sealed_unsignedReply]
  have hlong : 9 < unsignedReply.encode.length := by decide +kernel
  obtain ⟨whole, torn, failure, hsevered, hread, -, hfailure⟩ :=
    (decodeStream_take hsealed).1 (unsignedReply.encode.length + 9)
  obtain rfl : whole = [unsignedReply] := by
    have hone : [unsignedReply] <+: whole :=
      (hsevered.ends _ (List.prefix_append _ [unsignedReply])).1 (by simp [encodeStream])
    have htwo : ¬[unsignedReply, unsignedReply] <+: whole := fun h => by
      have hends := (hsevered.ends _ List.prefix_rfl).2 h
      simp only [encodeStream, List.flatMap_cons, List.flatMap_nil, List.append_nil,
        List.length_append] at hends
      omega
    obtain ⟨behind, rfl⟩ := hone
    cases behind with
    | nil => rfl
    | cons second behind =>
      obtain ⟨rfl, -⟩ := List.cons_prefix_cons.1 ((List.prefix_cons_inj _).1 hsevered.first)
      exact absurd (List.prefix_append _ behind) htwo
  have htorn : torn.length = 9 := by
    have hbytes := congrArg List.length hsevered.bytes
    simp only [encodeStream, List.flatMap_cons, List.flatMap_nil, List.append_nil,
      List.length_append, List.length_take] at hbytes
    omega
  obtain ⟨field, needed, available, rfl, hlt⟩ :=
    hfailure (List.ne_nil_of_length_eq_add_one htorn)
  exact ⟨hsealed, torn, field, needed, available, hread, hlt, htorn⟩

end Grove.Node
