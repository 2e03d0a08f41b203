import Grove.Proofs.Twig.Rows

/-! # Reading encoded twigs

Whatever is set in an empty twig, or read from bytes, the entries stand in ascending order, and
neither the names nor the values hold the byte that separates them. So the rows of the encoded form
are those that are written for the entries, and the twig is read back from it.
-/

namespace Grove.Twig

variable {t u : Twig} {k l : Key} {v : Bytes} {entries : List (Key × Bytes)}

namespace Key

theorem before_iff :
    k.before l = true ↔ k.name < l.name ∨ k.name = l.name ∧ k.version < l.version := by
  simp [before]

theorem before_trans {m : Key} (h : k.before l = true) (h' : l.before m = true) :
    k.before m = true := by
  rw [before_iff] at *
  rcases h with hlt | ⟨heq, hv⟩
  · rcases h' with hlt' | ⟨heq', -⟩
    · exact .inl (String.lt_trans hlt hlt')
    · exact .inl (heq' ▸ hlt)
  · rw [heq]
    exact h'.imp id fun ⟨heq', hv'⟩ => ⟨heq', UInt64.lt_trans hv hv'⟩

theorem not_before_self : ¬k.before k = true := by
  rw [before_iff]
  rintro (hlt | ⟨-, hv⟩)
  · exact String.lt_irrefl _ hlt
  · exact UInt64.lt_irrefl _ hv

theorem before_total (hne : k ≠ l) : k.before l = true ∨ l.before k = true := by
  obtain ⟨name, version⟩ := k
  obtain ⟨name', version'⟩ := l
  rw [before_iff, before_iff]
  by_cases hlt : name < name'
  · exact .inl (.inl hlt)
  by_cases hlt' : name' < name
  · exact .inr (.inl hlt')
  obtain rfl : name = name' := String.le_antisymm (String.not_lt.1 hlt') (String.not_lt.1 hlt)
  have hv : version ≠ version' := fun heq => hne (by rw [heq])
  exact (UInt64.lt_or_lt_of_ne hv).imp (fun h => .inr ⟨rfl, h⟩) fun h => .inr ⟨rfl, h⟩

/-- The name is not empty, and the encoded form can hold it. -/
structure Named (k : Key) : Prop where
  nonempty : k.name ≠ ""
  nul : 0 ∉ Utf8.encode k.name

theorem nul_mem_encode_iff {s : String} : 0 ∈ Utf8.encode s ↔ '\x00' ∈ s.toList :=
  Utf8.mem_encode_iff (c := '\x00') (by decide)

theorem nul_not_mem_text (hk : k.Named) : 0 ∉ Utf8.encode k.text := by
  have hname := nul_mem_encode_iff.not.1 hk.nul
  rw [nul_mem_encode_iff, text_eq_spelling, toList_spelling, List.mem_append, List.mem_cons, not_or,
    not_or]
  exact ⟨hname, by decide, Decimal.not_mem_write (by decide) _⟩

end Key

structure Admitted (entry : Key × Bytes) : Prop where
  named : entry.1.Named
  value : 0 ∉ entry.2

/-- The entries are in order, each key once, and the encoded form can hold them. -/
structure Valid (t : Twig) : Prop where
  ascending : t.entries.Pairwise fun e f => e.1.before f.1 = true
  admitted : ∀ entry ∈ t.entries, Admitted entry

theorem valid_empty : empty.Valid :=
  ⟨.nil, fun _ h => absurd h List.not_mem_nil⟩

theorem of_mem_insertEntry {entry : Key × Bytes} (h : entry ∈ insertEntry k v entries) :
    entry = (k, v) ∨ entry ∈ entries := by
  induction entries with
  | nil => exact .inl (List.mem_singleton.1 h)
  | cons e entries ih =>
    unfold insertEntry at h
    split at h
    · exact (List.mem_cons.1 h).imp id (List.mem_cons_of_mem _)
    · split at h
      · exact List.mem_cons.1 h
      · rcases List.mem_cons.1 h with rfl | h
        · exact .inr List.mem_cons_self
        · exact (ih h).imp id (List.mem_cons_of_mem _)

theorem pairwise_insertEntry (h : entries.Pairwise fun e f => e.1.before f.1 = true) :
    (insertEntry k v entries).Pairwise fun e f => e.1.before f.1 = true := by
  induction entries with
  | nil => exact List.pairwise_singleton ..
  | cons e entries ih =>
    obtain ⟨l, w⟩ := e
    obtain ⟨hl, hrest⟩ := List.pairwise_cons.1 h
    unfold insertEntry
    split
    · next hk =>
      subst hk
      exact .cons hl hrest
    · next hne =>
      split
      · next hlt =>
        refine .cons (fun f hf => ?_) h
        rcases List.mem_cons.1 hf with rfl | hf
        · exact hlt
        · exact Key.before_trans hlt (hl f hf)
      · next hlt =>
        refine .cons (fun f hf => ?_) (ih hrest)
        rcases of_mem_insertEntry hf with rfl | hf
        · exact (Key.before_total hne).resolve_left hlt
        · exact hl f hf

theorem Valid.insert (h : t.Valid) (hk : k.Named) (hv : 0 ∉ v) : (t.insert k v).Valid := by
  refine ⟨pairwise_insertEntry h.ascending, fun entry hentry => ?_⟩
  rcases of_mem_insertEntry hentry with rfl | hentry
  · exact ⟨hk, hv⟩
  · exact h.admitted entry hentry

theorem Valid.set {name : String} {version : UInt64} (h : t.Valid)
    (hset : t.set name version v = .ok u) : u.Valid := by
  unfold Twig.set at hset
  split at hset
  · exact absurd hset nofun
  split at hset
  · exact absurd hset nofun
  split at hset
  · exact absurd hset nofun
  next hname hnul hvalue =>
    obtain rfl := Except.ok.inj hset
    exact h.insert ⟨hname, hnul⟩ hvalue

variable {rows : List Row}

theorem Valid.fill (h : t.Valid) (hrows : ∀ r ∈ rows, Admitted r.entry) : (t.fill rows).Valid := by
  induction rows generalizing t with
  | nil => exact h
  | cons r rows ih =>
    obtain ⟨hr, hrows⟩ := List.forall_mem_cons.1 hrows
    exact ih (h.insert hr.named hr.value) hrows

theorem Written.admitted {b : Bytes} (h : Written b rows) : ∀ r ∈ rows, Admitted r.entry := by
  intro r hr
  have hlegible := h.legible r hr
  cases h with
  | nil => exact absurd hr List.not_mem_nil
  | parts _ hsplit =>
    have hparts : ∀ part ∈ r.parts, 0 ∉ part := by
      intro part hpart
      refine Text.not_mem_of_mem_splitAll (l := b) ?_
      rw [Text.splitAll_eq_splitOn, hsplit]
      exact List.mem_flatMap.2 ⟨r, hr, hpart⟩
    refine ⟨⟨hlegible.named, fun hnul => hparts _ List.mem_cons_self ?_⟩,
      hparts _ (List.mem_cons_of_mem _ List.mem_cons_self)⟩
    rw [Key.spelling, Utf8.encode_append, Utf8.encode_append]
    exact List.mem_append_left _ (List.mem_append_left _ hnul)

theorem valid_of_decode {b : Bytes} (h : decode b = .ok t) : t.Valid := by
  obtain ⟨rows, hwritten, -, rfl⟩ := decode_eq_ok_iff.1 h
  exact valid_empty.fill hwritten.admitted

theorem insertEntry_of_before (h : ∀ entry ∈ entries, entry.1.before k = true) :
    insertEntry k v entries = entries ++ [(k, v)] := by
  induction entries with
  | nil => rfl
  | cons e entries ih =>
    obtain ⟨hl, hrest⟩ := List.forall_mem_cons.1 h
    have hne : k ≠ e.1 := by
      rintro rfl
      exact Key.not_before_self hl
    have hlt : ¬k.before e.1 = true := fun hlt => Key.not_before_self (Key.before_trans hlt hl)
    rw [insertEntry, if_neg hne, if_neg hlt, ih hrest, List.cons_append]

theorem fill_mk_of_ascending
    (h : (entries ++ rows.map Row.entry).Pairwise fun e f => e.1.before f.1 = true) :
    fill ⟨entries⟩ rows = ⟨entries ++ rows.map Row.entry⟩ := by
  induction rows generalizing entries with
  | nil => rw [List.map_nil, List.append_nil]; rfl
  | cons r rows ih =>
    obtain ⟨-, -, hbetween⟩ := List.pairwise_append.1 h
    have hlast : ∀ e ∈ entries, e.1.before r.key = true :=
      fun e he => hbetween e he r.entry List.mem_cons_self
    rw [List.map_cons, List.append_cons] at h ⊢
    rw [← ih h, Row.entry, ← insertEntry_of_before hlast]
    rfl

theorem fill_of_ascending
    (h : (rows.map Row.entry).Pairwise fun e f => e.1.before f.1 = true) :
    empty.fill rows = ⟨rows.map Row.entry⟩ :=
  fill_mk_of_ascending h

theorem Valid.nul_not_mem (h : t.Valid) : ∀ part ∈ t.parts, 0 ∉ part := by
  intro part hpart
  obtain ⟨entry, hentry, hpart⟩ := List.mem_flatMap.1 hpart
  have hadmitted := h.admitted entry hentry
  rcases List.mem_cons.1 hpart with rfl | hpart
  · exact Key.nul_not_mem_text hadmitted.named
  · obtain rfl := List.mem_singleton.1 hpart
    exact hadmitted.value

theorem Admitted.legible_plain {entry : Key × Bytes} (h : Admitted entry) :
    (Row.plain entry).Legible :=
  ⟨h.named.nonempty, Decimal.denotes_write _⟩

theorem written_encode (h : t.Valid) : Written t.encode (t.entries.map Row.plain) := by
  have hnul := h.nul_not_mem
  have hadmitted := h.admitted
  obtain ⟨_ | ⟨entry, rest⟩⟩ := t
  · exact .nil
  have hparts : parts ⟨entry :: rest⟩ = Utf8.encode entry.1.text :: entry.2 :: parts ⟨rest⟩ := rfl
  refine .parts ?_ ?_ (List.forall_mem_map.2 fun e he => (hadmitted e he).legible_plain)
  · rw [encode, hparts, List.intercalate_cons_cons]
    simp
  · rw [← parts_eq_flatMap, encode, List.splitOn_intercalate 0 hnul (List.cons_ne_nil _ _)]

theorem Valid.nodup_keys (h : t.Valid) : (t.entries.map Prod.fst).Nodup := by
  refine List.pairwise_map.2 (h.ascending.imp fun hbefore heq => ?_)
  rw [heq] at hbefore
  exact Key.not_before_self hbefore

theorem decode_encode (h : t.Valid) : decode t.encode = .ok t := by
  have hentries : (t.entries.map Row.plain).map Row.entry = t.entries := by
    rw [List.map_map]
    exact List.map_id _
  have hkeys : (t.entries.map Row.plain).map Row.key = t.entries.map Prod.fst := List.map_map
  refine decode_eq_ok_iff.2 ⟨_, written_encode h, hkeys ▸ h.nodup_keys, ?_⟩
  rw [fill_of_ascending (hentries.symm ▸ h.ascending), hentries]

inductive Reached : Twig → Prop
  | empty : Reached .empty
  | set {t u : Twig} {name : String} {version : UInt64} {v : Bytes} (reached : Reached t)
      (set : t.set name version v = .ok u) : Reached u
  | decode {t : Twig} {b : Bytes} (read : decode b = .ok t) : Reached t

theorem Reached.valid (h : t.Reached) : t.Valid := by
  induction h with
  | empty => exact valid_empty
  | set _ hset ih => exact ih.set hset
  | decode hread => exact valid_of_decode hread

end Grove.Twig
