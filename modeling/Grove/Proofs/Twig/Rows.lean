import Grove.Proofs.Text.Ascii
import Grove.Proofs.Text.Numeral
import Grove.Proofs.Validation.Shallow
import Grove.Twig.Codec

/-! # Rows of encoded twigs

A row spells one entry: its key with digits for the version, and its value. The parts of an encoded
twig are taken two by two, and they are taken as long as they are rows with keys that have not been
there. The digits of a version hold no slash, so the parts tell what rows they are.
-/

namespace Grove.Twig

variable {t u : Twig} {k l : Key} {v : Bytes}

/-- The name and digits for the version with a slash between them. -/
def Key.spelling (k : Key) (digits : List Char) : String :=
  k.name ++ "/" ++ String.ofList digits

namespace Key

theorem text_eq_spelling (k : Key) : k.text = k.spelling (Decimal.write k.version.toNat) :=
  rfl

theorem toList_spelling (k : Key) (digits : List Char) :
    (k.spelling digits).toList = k.name.toList ++ '/' :: digits := by
  have hslash : "/".toList = ['/'] := rfl
  rw [spelling, String.toList_append, String.toList_append, hslash, String.toList_ofList,
    List.append_assoc, List.singleton_append]

theorem ofBytes_eq_ok_iff {raw : Bytes} :
    ofBytes raw = .ok k ↔ ∃ digits, raw = Utf8.encode (k.spelling digits) ∧ k.name ≠ "" ∧
      Decimal.Denotes digits k.version.toNat := by
  constructor
  · intro h
    unfold ofBytes at h
    split at h
    · exact absurd h nofun
    next text htext =>
      split at h
      · exact absurd h nofun
      next name digits hsplit =>
        split at h
        · exact absurd h nofun
        next hname =>
          split at h
          · exact absurd h nofun
          next version hversion =>
            split at h
            · next hsmall =>
              obtain rfl := Except.ok.inj h
              refine ⟨digits, ?_, mt String.ofList_eq_empty_iff.1 hname, ?_⟩
              · rw [← Utf8.encode_of_decode? htext]
                congr 1
                rw [← String.toList_inj, toList_spelling, String.toList_ofList,
                  Text.eq_of_splitLast? hsplit]
              · rw [UInt64.toNat_ofNat_of_lt' hsmall]
                exact Decimal.read?_eq_some_iff.1 hversion
            · exact absurd h nofun
  · rintro ⟨digits, rfl, hname, hdigits⟩
    have hsplit : Text.splitLast? '/' (k.spelling digits).toList =
        some (k.name.toList, digits) := by
      rw [toList_spelling]
      exact Text.splitLast?_append (hdigits.not_mem (by decide))
    have hname : k.name.toList ≠ [] := fun h => hname (String.toList_eq_nil_iff.1 h)
    have hversion : k.version.toNat < UInt64.size := k.version.toNat_lt
    simp only [ofBytes, Utf8.decode?_encode, hsplit, if_neg hname,
      Decimal.read?_eq_some_iff.2 hdigits, if_pos hversion, String.ofList_toList,
      UInt64.ofNat_toNat]

end Key

structure Row where
  key : Key
  digits : List Char
  value : Bytes

namespace Row

variable {r s : Row} {rows others : List Row}

def parts (r : Row) : List Bytes :=
  [Utf8.encode (r.key.spelling r.digits), r.value]

def entry (r : Row) : Key × Bytes :=
  (r.key, r.value)

/-- The name is not empty, and the digits denote the version. -/
structure Legible (r : Row) : Prop where
  named : r.key.name ≠ ""
  digits : Decimal.Denotes r.digits r.key.version.toNat

theorem Legible.ofBytes (h : r.Legible) :
    Key.ofBytes (Utf8.encode (r.key.spelling r.digits)) = .ok r.key :=
  Key.ofBytes_eq_ok_iff.2 ⟨r.digits, rfl, h.named, h.digits⟩

theorem Legible.parts_inj (hr : r.Legible) (hs : s.Legible) (h : r.parts = s.parts) : r = s := by
  obtain ⟨k, digits, v⟩ := r
  obtain ⟨l, digits', w⟩ := s
  obtain ⟨hspelling, hrest⟩ := List.cons.inj h
  obtain rfl : v = w := (List.cons.inj hrest).1
  obtain rfl : k = l := by
    have hread := hr.ofBytes
    rw [hspelling, hs.ofBytes] at hread
    exact (Except.ok.inj hread).symm
  have htext : k.spelling digits = k.spelling digits' := by
    rw [← Option.some.injEq, ← Utf8.decode?_encode, hspelling, Utf8.decode?_encode]
  have hlist := congrArg String.toList htext
  rw [Key.toList_spelling, Key.toList_spelling] at hlist
  rw [(List.cons.inj (List.append_cancel_left hlist)).2]

theorem flatMap_parts_inj (hrows : ∀ r ∈ rows, r.Legible) (hothers : ∀ r ∈ others, r.Legible)
    (h : rows.flatMap parts = others.flatMap parts) : rows = others := by
  induction rows generalizing others with
  | nil =>
    cases others with
    | nil => rfl
    | cons s others => exact absurd h nofun
  | cons r rows ih =>
    cases others with
    | nil => exact absurd h nofun
    | cons s others =>
      obtain ⟨hr, hrows⟩ := List.forall_mem_cons.1 hrows
      obtain ⟨hs, hothers⟩ := List.forall_mem_cons.1 hothers
      rw [List.flatMap_cons, List.flatMap_cons] at h
      obtain ⟨hparts, hrest⟩ := List.append_inj h rfl
      rw [hr.parts_inj hs hparts, ih hrows hothers hrest]

def plain (entry : Key × Bytes) : Row :=
  ⟨entry.1, Decimal.write entry.1.version.toNat, entry.2⟩

theorem Legible.plain_entry_eq_self_iff (h : r.Legible) :
    plain r.entry = r ↔ Decimal.Plain r.digits := by
  rw [h.digits.plain_iff]
  obtain ⟨k, digits, v⟩ := r
  simp [plain, entry, eq_comm]

end Row

variable {rows : List Row}

theorem parts_eq_flatMap (t : Twig) : t.parts = (t.entries.map Row.plain).flatMap Row.parts := by
  rw [parts, List.flatMap_map]
  rfl

def fill (t : Twig) (rows : List Row) : Twig :=
  rows.foldl (fun t r => t.insert r.key r.value) t

theorem contains_insert :
    (t.insert k v).contains l = false ↔ l ≠ k ∧ t.contains l = false := by
  rw [contains, get?_insert, contains]
  split
  · next h => simp [h]
  · next h => simp [h]

variable {parts : List Bytes}

theorem insertParts_cons_cons_eq_ok_iff {raw : Bytes} :
    t.insertParts (raw :: v :: parts) = .ok u ↔ ∃ k, Key.ofBytes raw = .ok k ∧
      t.contains k = false ∧ (t.insert k v).insertParts parts = .ok u := by
  rw [insertParts, bind_eq_ok_iff]
  refine exists_congr fun k => and_congr_right fun _ => ?_
  cases t.contains k with
  | false => simp
  | true => exact iff_of_false nofun fun h => absurd h.1 nofun

theorem insertParts_eq_ok_iff :
    t.insertParts parts = .ok u ↔ ∃ rows, (∀ r ∈ rows, r.Legible) ∧
      parts = rows.flatMap Row.parts ∧ (rows.map Row.key).Nodup ∧
      (∀ r ∈ rows, t.contains r.key = false) ∧ t.fill rows = u := by
  induction t, parts using insertParts.induct with
  | case1 t =>
    constructor
    · intro h
      obtain rfl := Except.ok.inj h
      exact ⟨[], List.forall_mem_nil _, rfl, .nil, List.forall_mem_nil _, rfl⟩
    · rintro ⟨_ | ⟨r, rows⟩, -, hparts, -, -, rfl⟩
      · rfl
      · exact absurd hparts nofun
  | case2 t raw =>
    refine iff_of_false (fun h => ?_) ?_
    · obtain ⟨k, -, hthrow⟩ := bind_eq_ok_iff.1 h
      exact absurd hthrow nofun
    · rintro ⟨_ | ⟨r, rows⟩, -, hparts, -⟩
      · exact absurd hparts nofun
      · exact absurd (List.cons.inj hparts).2 nofun
  | case3 t raw value parts ih =>
    rw [insertParts_cons_cons_eq_ok_iff]
    constructor
    · rintro ⟨k, hk, hfresh, h⟩
      obtain ⟨digits, rfl, hname, hdigits⟩ := Key.ofBytes_eq_ok_iff.1 hk
      obtain ⟨rows, hlegible, rfl, hnodup, hrows, rfl⟩ := (ih k).1 h
      simp only [contains_insert] at hrows
      refine ⟨⟨k, digits, value⟩ :: rows, List.forall_mem_cons.2 ⟨⟨hname, hdigits⟩, hlegible⟩, rfl,
        List.nodup_cons.2 ⟨fun hmem => ?_, hnodup⟩,
        List.forall_mem_cons.2 ⟨hfresh, fun r hr => (hrows r hr).2⟩, rfl⟩
      obtain ⟨r, hr, hkey⟩ := List.mem_map.1 hmem
      exact (hrows r hr).1 hkey
    · rintro ⟨_ | ⟨r, rows⟩, hlegible, hparts, hnodup, hrows, rfl⟩
      · exact absurd hparts nofun
      obtain ⟨rfl, hrest⟩ := List.cons.inj hparts
      obtain ⟨rfl, rfl⟩ := List.cons.inj hrest
      obtain ⟨hr, hlegible⟩ := List.forall_mem_cons.1 hlegible
      obtain ⟨hnew, hnodup⟩ := List.nodup_cons.1 hnodup
      obtain ⟨hfresh, hrows⟩ := List.forall_mem_cons.1 hrows
      refine ⟨r.key, hr.ofBytes, hfresh, (ih r.key).2 ⟨rows, hlegible, rfl, hnodup, ?_, rfl⟩⟩
      refine fun s hs => contains_insert.2 ⟨fun hkey => hnew ?_, hrows s hs⟩
      exact hkey ▸ List.mem_map_of_mem hs

/-- The bytes hold the rows, with zero bytes between their parts. -/
inductive Written : Bytes → List Row → Prop
  | nil : Written [] []
  | parts {b : Bytes} {rows : List Row} (nonempty : b ≠ [])
      (split : b.splitOn 0 = rows.flatMap Row.parts) (legible : ∀ r ∈ rows, r.Legible) :
      Written b rows

variable {b c : Bytes} {others : List Row}

theorem Written.legible (h : Written b rows) : ∀ r ∈ rows, r.Legible := by
  cases h with
  | nil => exact List.forall_mem_nil _
  | parts _ _ hlegible => exact hlegible

theorem Written.rows_unique (h : Written b rows) (h' : Written b others) : rows = others := by
  cases h with
  | nil =>
    cases h' with
    | nil => rfl
    | parts hne => exact absurd rfl hne
  | parts hne hsplit hlegible =>
    cases h' with
    | nil => exact absurd rfl hne
    | parts _ hsplit' hlegible' =>
      exact Row.flatMap_parts_inj hlegible hlegible' (hsplit.symm.trans hsplit')

theorem Written.bytes_unique (h : Written b rows) (h' : Written c rows) : b = c := by
  have hne (b : Bytes) : b.splitOn 0 ≠ List.flatMap Row.parts [] := List.splitOn_ne_nil 0 b
  have hjoin (b : Bytes) : [0].intercalate (b.splitOn 0) = b := List.intercalate_splitOn 0
  cases h with
  | nil =>
    cases h' with
    | nil => rfl
    | parts _ hsplit => exact absurd hsplit (hne c)
  | parts _ hsplit =>
    cases h' with
    | nil => exact absurd hsplit (hne b)
    | parts _ hsplit' => rw [← hjoin b, hsplit, ← hsplit', hjoin]

/-- Bytes are read if they hold rows of which no two have the same key. -/
theorem decode_eq_ok_iff :
    decode b = .ok t ↔ ∃ rows, Written b rows ∧ (rows.map Row.key).Nodup ∧ empty.fill rows = t := by
  unfold decode
  split
  · next hb =>
    subst hb
    constructor
    · intro h
      obtain rfl := Except.ok.inj h
      exact ⟨[], .nil, .nil, rfl⟩
    · rintro ⟨rows, hwritten, -, rfl⟩
      rw [hwritten.rows_unique .nil]
      rfl
  · next hb =>
    rw [insertParts_eq_ok_iff, Text.splitAll_eq_splitOn]
    constructor
    · rintro ⟨rows, hlegible, hsplit, hnodup, -, hfill⟩
      exact ⟨rows, .parts hb hsplit hlegible, hnodup, hfill⟩
    · rintro ⟨rows, hwritten, hnodup, hfill⟩
      cases hwritten with
      | nil => exact absurd rfl hb
      | parts _ hsplit hlegible => exact ⟨rows, hlegible, hsplit, hnodup, fun _ _ => rfl, hfill⟩

end Grove.Twig
