import Grove.Node.Validation
import Grove.Proofs.Twig.Codec
import Mathlib.Data.List.Induction

/-! # Entries of twigs

A twig that is changed in place is checked before it is changed, so a change that fails leaves it as
it was. Whatever is done to a twig, its encoded form says exactly what entries it has: it is read
back, and it does not tell in what order they were set.
-/

namespace Grove

namespace Twig

variable {t u : Twig} {name : String} {version : UInt64} {v : Bytes}

def put (name : String) (version : UInt64) (v : Bytes) : ExceptT TwigError (StateM Twig) Unit := do
  if name = "" then throw .emptyName
  if 0 ∈ Utf8.encode name then throw .nulInKey
  if 0 ∈ v then throw .nulInValue
  modify fun t => t.insert ⟨name, version⟩ v

def reread (b : Bytes) : ExceptT TwigError (StateM Twig) Unit := do
  match decode b with
  | .ok u => modify fun _ => u
  | .error e => throw e

theorem run_put (name : String) (version : UInt64) (v : Bytes) (t : Twig) :
    (put name version v).run t =
      match t.set name version v with
      | .ok u => (.ok (), u)
      | .error e => (.error e, t) := by
  unfold put Twig.set
  by_cases hname : name = ""
  · rw [if_pos hname, if_pos hname]
    rfl
  rw [if_neg hname, if_neg hname]
  by_cases hnul : 0 ∈ Utf8.encode name
  · rw [if_pos hnul, if_pos hnul]
    rfl
  rw [if_neg hnul, if_neg hnul]
  by_cases hvalue : 0 ∈ v
  · rw [if_pos hvalue, if_pos hvalue]
    rfl
  · rw [if_neg hvalue, if_neg hvalue]
    rfl

theorem run_reread (b : Bytes) (t : Twig) :
    (reread b).run t =
      match decode b with
      | .ok u => (.ok (), u)
      | .error e => (.error e, t) := by
  unfold reread
  cases decode b <;> rfl

inductive Change
  | set (name : String) (version : UInt64) (v : Bytes)
  | decode (b : Bytes)

def Change.act : Change → ExceptT TwigError (StateM Twig) Unit
  | set name version v => put name version v
  | decode b => reread b

/-- What a twig becomes by changes, of which some may fail. -/
def made (changes : List Change) : Twig :=
  changes.foldl (fun t c => (c.act.run t).2) empty

theorem Reached.act (h : t.Reached) (c : Change) : (c.act.run t).2.Reached := by
  cases c with
  | set name version v =>
    rw [Change.act, run_put]
    cases hset : t.set name version v with
    | ok u => exact h.set hset
    | error e => exact h
  | decode b =>
    rw [Change.act, run_reread]
    cases hread : Twig.decode b with
    | ok u => exact .decode hread
    | error e => exact h

theorem reached_made (changes : List Change) : (made changes).Reached := by
  induction changes using List.reverseRecOn with
  | nil => exact .empty
  | append_singleton changes c ih =>
    rw [made, List.foldl_append]
    exact ih.act c

theorem Valid.nodup (h : t.Valid) : t.entries.Nodup :=
  List.Pairwise.of_map _ (fun _ _ => mt (congrArg Prod.fst)) h.nodup_keys

/-- The entries alone make a twig, since they stand in the order of their keys. -/
theorem Valid.ext_iff (ht : t.Valid) (hu : u.Valid) :
    t = u ↔ ∀ entry, entry ∈ t.entries ↔ entry ∈ u.entries := by
  constructor
  · rintro rfl entry
    rfl
  · intro h
    have hperm : t.entries.Perm u.entries := (List.perm_ext_iff_of_nodup ht.nodup hu.nodup).2 h
    have hentries : t.entries = u.entries :=
      hperm.eq_of_pairwise (fun _ _ _ _ hab hba => absurd (Key.before_trans hab hba)
        Key.not_before_self) ht.ascending hu.ascending
    exact congrArg Twig.mk hentries

theorem Valid.encode_inj (ht : t.Valid) (hu : u.Valid) : t.encode = u.encode ↔ t = u := by
  constructor
  · intro h
    have hread := decode_encode ht
    rw [h, decode_encode hu] at hread
    exact (Except.ok.inj hread).symm
  · rintro rfl
    rfl

end Twig

theorem Qualified.checkContent_encode {c : Content} {t : Twig} (ht : t.Valid) (field : Field)
    (hkind : c.kind = .twig) (hpayload : c.payload = t.encode) :
    c.checkContent field = .ok () := by
  rw [checkContent, hkind, hpayload]
  simp only [Twig.decode_encode ht]

namespace Twig

/-- Whatever is done to a twig, its names are not empty, neither they nor the values hold a zero
byte, it is read back from its encoded form, which is a valid content, and setting an entry in place
leaves it as it is where that fails. Two twigs are encoded alike exactly if they have the same
entries, in whatever order these were set. -/
theorem made_encode (changes : List Change) :
    (∀ entry ∈ (made changes).entries,
      entry.1.name ≠ "" ∧ 0 ∉ Utf8.encode entry.1.name ∧ 0 ∉ entry.2) ∧
    decode (made changes).encode = .ok (made changes) ∧
    (∀ name version v, (put name version v).run (made changes) =
      match (made changes).set name version v with
      | .ok t => (.ok (), t)
      | .error e => (.error e, made changes)) ∧
    (∀ others, (made changes).encode = (made others).encode ↔
      ∀ entry, entry ∈ (made changes).entries ↔ entry ∈ (made others).entries) ∧
    ∀ (field : Field) (c : Content), c.kind = .twig → c.payload = (made changes).encode →
      c.checkContent field = .ok () := by
  have hvalid := (reached_made changes).valid
  refine ⟨fun entry hentry => ?_, decode_encode hvalid,
    fun name version v => run_put name version v _, fun others => ?_,
    fun field c => Qualified.checkContent_encode hvalid field⟩
  · have hadmitted := hvalid.admitted entry hentry
    exact ⟨hadmitted.named.nonempty, hadmitted.named.nul, hadmitted.value⟩
  · have hothers := (reached_made others).valid
    rw [hvalid.encode_inj hothers, hvalid.ext_iff hothers]

/-- One order of setting two entries and another, with changes that fail in between. -/
theorem made_encode_reordered :
    (made [.set "a/b" 2 [1], .set "" 1 [], .set "a" 7 []]).encode =
      (made [.set "a" 7 [], .decode [0], .set "a/b" 2 [0], .set "a/b" 2 [1]]).encode := by
  refine ((made_encode _).2.2.2.1 _).2 fun entry => ?_
  have hentries : (made [.set "a/b" 2 [1], .set "" 1 [], .set "a" 7 []]).entries =
      (made [.set "a" 7 [], .decode [0], .set "a/b" 2 [0], .set "a/b" 2 [1]]).entries := by
    decide +kernel
  rw [hentries]

end Twig

end Grove
