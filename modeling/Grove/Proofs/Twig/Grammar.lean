import Grove.Proofs.Twig.Codec

/-! # Which bytes are twigs

Bytes are a twig exactly if they hold legible rows whose keys differ. The twig then has the entries
of the rows, in whatever order these stand, and with whatever zeros in front of the versions. Its
encoded form is the same bytes only if the rows are in order and no version has a zero too many.
-/

namespace Grove.Twig

variable {t : Twig} {k : Key} {v : Bytes} {b : Bytes} {rows : List Row}

theorem get?_fill (hnodup : (rows.map Row.key).Nodup) :
    (t.fill rows).get? k = some v ↔
      (∃ r ∈ rows, r.key = k ∧ r.value = v) ∨ (∀ r ∈ rows, r.key ≠ k) ∧ t.get? k = some v := by
  induction rows generalizing t with
  | nil => simp [fill]
  | cons r rows ih =>
    obtain ⟨hr, hnodup⟩ := List.nodup_cons.1 hnodup
    have hfill : t.fill (r :: rows) = (t.insert r.key r.value).fill rows := rfl
    rw [hfill, ih hnodup, get?_insert]
    by_cases hk : k = r.key
    · subst hk
      have hother : ∀ s ∈ rows, s.key ≠ r.key := fun s hs hkey =>
        hr (hkey ▸ List.mem_map_of_mem hs)
      simp only [if_pos, List.exists_mem_cons_iff, List.forall_mem_cons]
      grind
    · simp only [if_neg hk, List.exists_mem_cons_iff, List.forall_mem_cons]
      grind

theorem encode_eq_iff (h : t.Valid) (hwritten : Written b rows) :
    t.encode = b ↔ t.entries.map Row.plain = rows := by
  constructor
  · intro hb
    exact (hb ▸ written_encode h).rows_unique hwritten
  · rintro rfl
    exact (written_encode h).bytes_unique hwritten

/-- Rows are those that are written for a twig if they are in order and have no zero too many. -/
theorem map_plain_fill_iff (hlegible : ∀ r ∈ rows, r.Legible) (h : (empty.fill rows).Valid) :
    (empty.fill rows).entries.map Row.plain = rows ↔
      (rows.map Row.key).Pairwise (fun k l => k.before l = true) ∧
        ∀ r ∈ rows, Decimal.Plain r.digits := by
  constructor
  · intro hrows
    have hplain : ∀ r ∈ rows, Row.plain r.entry = r := by
      intro r hr
      rw [← hrows] at hr
      obtain ⟨entry, -, rfl⟩ := List.mem_map.1 hr
      rfl
    refine ⟨?_, fun r hr => (hlegible r hr).plain_entry_eq_self_iff.1 (hplain r hr)⟩
    rw [← hrows, List.map_map, List.pairwise_map]
    exact h.ascending
  · rintro ⟨hascending, hplain⟩
    have hentries : (rows.map Row.entry).Pairwise fun e f => e.1.before f.1 = true :=
      List.pairwise_map.2 (List.pairwise_map.1 hascending)
    have hfill : (empty.fill rows).entries = rows.map Row.entry :=
      congrArg Twig.entries (fill_of_ascending hentries)
    rw [hfill, List.map_map, List.map_congr_left (g := id), List.map_id]
    exact fun r hr => (hlegible r hr).plain_entry_eq_self_iff.2 (hplain r hr)

/-- Bytes are read as a twig if they hold rows of which no two have the same key. The twig maps the
key of each row to its value, and it is encoded as it was if the rows are in order, and none of them
has a leading zero too many. -/
theorem decode_written (b : Bytes) :
    ((∃ t, decode b = .ok t) ↔ ∃ rows, Written b rows ∧ (rows.map Row.key).Nodup) ∧
    ∀ (t : Twig) (rows : List Row), decode b = .ok t → Written b rows →
      (∀ k v, t.get? k = some v ↔ ∃ r ∈ rows, r.key = k ∧ r.value = v) ∧
      (t.encode = b ↔ (rows.map Row.key).Pairwise (fun k l => k.before l = true) ∧
        ∀ r ∈ rows, Decimal.Plain r.digits) := by
  constructor
  · constructor
    · rintro ⟨t, h⟩
      obtain ⟨rows, hwritten, hnodup, -⟩ := decode_eq_ok_iff.1 h
      exact ⟨rows, hwritten, hnodup⟩
    · rintro ⟨rows, hwritten, hnodup⟩
      exact ⟨_, decode_eq_ok_iff.2 ⟨rows, hwritten, hnodup, rfl⟩⟩
  · intro t rows h hwritten
    have hvalid := valid_of_decode h
    obtain ⟨others, hothers, hnodup, rfl⟩ := decode_eq_ok_iff.1 h
    obtain rfl := hothers.rows_unique hwritten
    refine ⟨fun k v => ?_, ?_⟩
    · rw [get?_fill hnodup]
      exact or_iff_left fun hempty => absurd hempty.2 nofun
    · rw [encode_eq_iff hvalid hwritten, map_plain_fill_iff hwritten.legible hvalid]

example : decode (Utf8.encode "k/1\x00a\x00k/01\x00b") = .error (.duplicateKey ⟨"k", 1⟩) := by
  decide +kernel

end Grove.Twig
