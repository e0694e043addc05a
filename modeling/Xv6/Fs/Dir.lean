import Xv6.Param
import Xv6.Lib.String
import Xv6.Framework.Reach

/-!
# Directories: `dirlookup`, `dirlink`, and the entry `unlink` zeroes

A directory is a file of `struct dirent`s of 16 bytes: an inode number, 0
for a free entry, and a name of `DIRSIZ` bytes, NUL-terminated only when
shorter. The model is the list of entries `readi` reads at offsets 0, 16,
32, … below `dp->size`, which `dirlink` only ever grows by a whole entry.
Names are compared by `namecmp`, `strncmp` bounded by `DIRSIZ`: two names
agree when their first `DIRSIZ` bytes before the NUL do (`nameKey`).

`dirlookup` finds the first live entry that agrees with the name
(`dirlookup_eq`). `dirlink` of a name that is present returns -1 and
changes nothing; of one that is absent it writes the entry into the first
free slot or appends it, after which every name's lookup is as before but
the new name's, which finds the new entry (`dirlookup_dirlink`). No two live
entries agree (`Unique`, which both keep), so zeroing the entry `dirlookup`
found removes exactly that name (`dirlookup_unlinkEntry`): a directory is a
finite map from `DIRSIZ`-truncated names to inode numbers.

`writei` does not grow a file past `MAXFILE*BSIZE` bytes, and `dirlink`
panics when its write fails: a new name in a directory of 17152 live
entries, which 17152 calls of `link` build from an empty one, panics
(`dirlink_full_panics`).
-/

namespace Xv6

open Framework

/-- Directory is a file containing a sequence of dirent structures. -/
def DIRSIZ : Nat := 14

/-- `struct dirent`. -/
structure Dirent where
  inum : UInt16
  name : List Char
  name_length : name.length = DIRSIZ
  deriving DecidableEq

/-- `memset(&de, 0, sizeof(de))`. -/
def Dirent.zero : Dirent := ⟨0, List.replicate DIRSIZ '\x00', List.length_replicate⟩

/-- `namecmp(s, t)`. -/
def namecmp (s t : List Char) : Int := strncmp s t DIRSIZ

/-- What `namecmp` compares of a name: its first `DIRSIZ` bytes before the NUL. -/
def nameKey (s : List Char) : List Char := (beforeNul s).take DIRSIZ

theorem namecmp_eq_zero_iff (s t : List Char) : namecmp s t = 0 ↔ nameKey s = nameKey t :=
  strncmp_eq_zero_iff s t DIRSIZ

/-- The entry `dirlink` writes for `name` has `name`'s key. -/
theorem nameKey_strncpy (name : List Char) : nameKey (strncpy name DIRSIZ) = nameKey name := by
  rw [nameKey, beforeNul_strncpy, List.take_take, Nat.min_self, nameKey]

/-! ## The code -/

/-- `dirlookup`'s loop over the entries from offset `off` on. -/
def dirlookupLoop (name : List Char) : List Dirent → Nat → Option (Nat × Nat)
  | [], _ => none
  | de :: des, off =>
    if de.inum = 0 then dirlookupLoop name des (off + 16)
    -- entry matches path element
    else if namecmp name de.name = 0 then some (off, de.inum.toNat)
    else dirlookupLoop name des (off + 16)

/-- `dirlookup(dp, name, poff)` in a directory with entries `des`: the offset
it sets `*poff` to and the inode number it passes to `iget`; `none` where it
returns 0. -/
def dirlookup (des : List Dirent) (name : List Char) : Option (Nat × Nat) := dirlookupLoop name des 0

/-- The entry `dirlink`'s loop `for(off = 0; off < dp->size; off += sizeof(de))`
stops at: the first free one, or the end. -/
def freeSlot (des : List Dirent) : Nat := des.findIdx (·.inum == 0)

/-- `writei(dp, 0, &de, off, sizeof(de))` of an entry at entry `k`, at most the
directory's length: it rewrites that entry or appends one. `writei` refuses
to write past `MAXFILE*BSIZE`: `none`, where it returns -1. -/
def writeEntry (des : List Dirent) (k : Nat) (de : Dirent) : Option (List Dirent) :=
  if 16 * k + 16 > MAXFILE * BSIZE then none
  else some (if k < des.length then des.set k de else des ++ [de])

/-- `dirlink(dp, name, inum)`: what it returns, and the entries after. -/
def dirlink (des : List Dirent) (name : List Char) (inum : Nat) : Except String (Int × List Dirent) :=
  -- Check that name is not present.
  match dirlookup des name with
  | some _ => .ok (-1, des)
  | none =>
    let de : Dirent := ⟨UInt16.ofNat inum, strncpy name DIRSIZ, length_strncpy name DIRSIZ⟩
    match writeEntry des (freeSlot des) de with
    | some des' => .ok (0, des')
    | none => .error "dirlink"

/-- `sys_unlink`'s write of a zeroed entry at the offset `dirlookup` returned;
`none` where `writei` fails and it panics. -/
def unlinkEntry (des : List Dirent) (off : Nat) : Option (List Dirent) := writeEntry des (off / 16) Dirent.zero

/-! ## The lookup -/

/-- Entry `de` is live and `namecmp` finds its name equal to `name`. -/
def Hit (name : List Char) (de : Dirent) : Prop := de.inum ≠ 0 ∧ namecmp name de.name = 0

instance (name : List Char) : DecidablePred (Hit name) := fun de =>
  inferInstanceAs (Decidable (de.inum ≠ 0 ∧ namecmp name de.name = 0))

theorem hit_iff {name : List Char} {de : Dirent} : Hit name de ↔ de.inum ≠ 0 ∧ nameKey de.name = nameKey name := by
  rw [Hit, namecmp_eq_zero_iff, eq_comm]

/-- A free entry agrees with no name. -/
theorem not_hit_of_free {name : List Char} {de : Dirent} (h : de.inum = 0) : ¬Hit name de := fun h' => h'.1 h

theorem dirlookupLoop_cons (name : List Char) (de : Dirent) (des : List Dirent) (off : Nat) :
    dirlookupLoop name (de :: des) off =
      if Hit name de then some (off, de.inum.toNat) else dirlookupLoop name des (off + 16) := by
  rw [dirlookupLoop]
  by_cases h0 : de.inum = 0
  · rw [if_pos h0, if_neg (not_hit_of_free h0)]
  · rw [if_neg h0]
    by_cases hc : namecmp name de.name = 0
    · rw [if_pos hc, if_pos ⟨h0, hc⟩]
    · rw [if_neg hc, if_neg fun h => hc h.2]

theorem dirlookupLoop_eq (name : List Char) (des : List Dirent) (off : Nat) :
    dirlookupLoop name des off =
      (des.findIdx? fun de => decide (Hit name de)).map fun k => (off + 16 * k, (des.getD k Dirent.zero).inum.toNat) := by
  induction des generalizing off with
  | nil => rfl
  | cons de des ih =>
    rw [dirlookupLoop_cons, List.findIdx?_cons]
    by_cases h : Hit name de
    · simp [h]
    · simp only [if_neg h, ih, decide_eq_false h, Bool.false_eq_true, if_false, Option.map_map]
      congr 1
      funext k
      simp only [Function.comp_apply, List.getD_cons_succ, Prod.mk.injEq, and_true]
      omega

/-- **`dirlookup` finds the first live entry whose name agrees with `name`**,
at 16 times its index. -/
theorem dirlookup_eq (des : List Dirent) (name : List Char) :
    dirlookup des name =
      (des.findIdx? fun de => decide (Hit name de)).map fun k => (16 * k, (des.getD k Dirent.zero).inum.toNat) := by
  rw [dirlookup, dirlookupLoop_eq]
  simp only [Nat.zero_add]

/-- `dirlookup` reads a name only through its key. -/
theorem dirlookup_congr (des : List Dirent) {n n' : List Char} (h : nameKey n = nameKey n') :
    dirlookup des n = dirlookup des n' := by
  have hh : ∀ de, Hit n de ↔ Hit n' de := fun de => by rw [hit_iff, hit_iff, h]
  rw [dirlookup_eq, dirlookup_eq]
  simp only [hh]

theorem dirlookupLoop_eq_none {name : List Char} {des : List Dirent} {off : Nat} :
    dirlookupLoop name des off = none ↔ ∀ de ∈ des, ¬Hit name de := by
  rw [dirlookupLoop_eq, Option.map_eq_none_iff, List.findIdx?_eq_none_iff]
  simp

/-- Rewriting an entry that does not agree with `name` by another that does
not leaves `name`'s lookup as it was. -/
theorem dirlookupLoop_set_miss {name : List Char} {de : Dirent} (hde : ¬Hit name de) :
    ∀ (des : List Dirent) (k off : Nat), (∀ hk : k < des.length, ¬Hit name des[k]) →
      dirlookupLoop name (des.set k de) off = dirlookupLoop name des off
  | [], _, _, _ => rfl
  | d :: des, 0, off, hk => by
    have hd : ¬Hit name d := hk (Nat.succ_pos _)
    rw [List.set_cons_zero, dirlookupLoop_cons, dirlookupLoop_cons, if_neg hde, if_neg hd]
  | d :: des, k + 1, off, hk => by
    rw [List.set_cons_succ, dirlookupLoop_cons, dirlookupLoop_cons,
      dirlookupLoop_set_miss hde des k (off + 16) fun h => hk (Nat.succ_lt_succ h)]

/-- Where no entry agrees with `name`, an entry that does, written at
entry `k`, is what `name`'s lookup finds. -/
theorem dirlookupLoop_set_hit {name : List Char} {de : Dirent} (hde : Hit name de) :
    ∀ (des : List Dirent) (k off : Nat), (∀ d ∈ des, ¬Hit name d) → k < des.length →
      dirlookupLoop name (des.set k de) off = some (off + 16 * k, de.inum.toNat)
  | d :: des, 0, off, _, _ => by
    rw [List.set_cons_zero, dirlookupLoop_cons, if_pos hde, Nat.mul_zero, Nat.add_zero]
  | d :: des, k + 1, off, hno, hk => by
    rw [List.set_cons_succ, dirlookupLoop_cons, if_neg (hno d List.mem_cons_self),
      dirlookupLoop_set_hit hde des k (off + 16) (fun d' hd' => hno d' (List.mem_cons_of_mem _ hd'))
        (Nat.lt_of_succ_lt_succ hk)]
    congr 2
    omega

/-- An entry appended is found only by a name no earlier entry agrees with. -/
theorem dirlookupLoop_append (name : List Char) (de : Dirent) :
    ∀ (des : List Dirent) (off : Nat), dirlookupLoop name (des ++ [de]) off =
      (dirlookupLoop name des off).or (if Hit name de then some (off + 16 * des.length, de.inum.toNat) else none)
  | [], off => by
    rw [List.nil_append, dirlookupLoop_cons]
    simp [dirlookupLoop]
  | d :: des, off => by
    rw [List.cons_append, dirlookupLoop_cons, dirlookupLoop_cons, dirlookupLoop_append name de des (off + 16)]
    by_cases hd : Hit name d
    · simp [hd]
    · simp only [hd, if_false, List.length_cons]
      rw [show off + 16 + 16 * des.length = off + 16 * (des.length + 1) by omega]

/-! ## `dirlink` -/

/-- The free slot is a free entry, or the end. -/
theorem freeSlot_spec (des : List Dirent) :
    (∃ hk : freeSlot des < des.length, des[freeSlot des].inum = 0) ∨ freeSlot des = des.length := by
  unfold freeSlot
  by_cases hk : des.findIdx (·.inum == 0) < des.length
  · refine .inl ⟨hk, ?_⟩
    have := List.findIdx_getElem (w := hk)
    simpa using this
  · exact .inr (Nat.le_antisymm (List.findIdx_le_length) (Nat.le_of_not_lt hk))

/-- A name that is present: -1, and no change. -/
theorem dirlink_present {des : List Dirent} {name : List Char} {inum : Nat} (h : dirlookup des name ≠ none) :
    dirlink des name inum = .ok (-1, des) := by
  rw [dirlink]
  split
  · rfl
  · contradiction

/-- A name that is absent: 0, and the entry written at the free slot, unless
the directory is full and the write fails. -/
theorem dirlink_absent {des : List Dirent} {name : List Char} {inum : Nat} (h : dirlookup des name = none) :
    dirlink des name inum =
      match writeEntry des (freeSlot des) ⟨UInt16.ofNat inum, strncpy name DIRSIZ, length_strncpy name DIRSIZ⟩ with
      | some des' => .ok (0, des')
      | none => .error "dirlink" := by
  rw [dirlink, h]

/-- **After `dirlink` of an absent name**, the new name finds the new entry at
the free slot and every other name finds what it found before. -/
theorem dirlookup_dirlink {des des' : List Dirent} {name : List Char} {inum : Nat}
    (h : dirlink des name inum = .ok (0, des')) (hpos : 0 < inum) (hlt : inum < 2 ^ 16) (n : List Char) :
    dirlookup des' n = if nameKey n = nameKey name then some (16 * freeSlot des, inum) else dirlookup des n := by
  -- the name was absent, and the entry was written
  have habs : dirlookup des name = none := by
    cases hl : dirlookup des name with
    | none => rfl
    | some r => rw [dirlink_present (by simp [hl])] at h; simp at h
  rw [dirlink_absent habs] at h
  set de : Dirent := ⟨UInt16.ofNat inum, strncpy name DIRSIZ, length_strncpy name DIRSIZ⟩ with hde
  have hw : writeEntry des (freeSlot des) de = some des' := by
    cases hw : writeEntry des (freeSlot des) de with
    | none => rw [hw] at h; cases h
    | some r => rw [hw] at h; simp only [Except.ok.injEq, Prod.mk.injEq] at h; rw [h.2]
  have hinum : de.inum ≠ 0 ∧ de.inum.toNat = inum := by
    have hv : (UInt16.ofNat inum).toNat = inum := by
      rw [UInt16.toNat_ofNat', Nat.mod_eq_of_lt hlt]
    refine ⟨fun h0 => ?_, hv⟩
    have h0 : UInt16.ofNat inum = 0 := h0
    rw [h0, UInt16.toNat_zero] at hv
    omega
  -- the new entry agrees exactly with the names that agree with `name`
  have hhit : Hit n de ↔ nameKey n = nameKey name := by
    rw [hit_iff, nameKey_strncpy]
    exact ⟨fun h => h.2.symm, fun h => ⟨hinum.1, h.symm⟩⟩
  have hno : ∀ d ∈ des, nameKey n = nameKey name → ¬Hit n d := by
    intro d hd hk hn
    rw [hit_iff, hk] at hn
    exact (dirlookupLoop_eq_none.1 habs) d hd (hit_iff.2 hn)
  unfold writeEntry at hw
  split at hw
  · cases hw
  cases hw
  rw [dirlookup, dirlookup]
  split
  · -- a free entry rewritten
    rename_i hk
    have hfree : des[freeSlot des].inum = 0 := by
      rcases freeSlot_spec des with ⟨_, h0⟩ | he
      · exact h0
      · omega
    by_cases hn : nameKey n = nameKey name
    · rw [if_pos hn, dirlookupLoop_set_hit (hhit.2 hn) des _ 0 (fun d hd => hno d hd hn) hk, hinum.2]
      simp
    · rw [if_neg hn]
      exact dirlookupLoop_set_miss (mt hhit.1 hn) des _ 0 fun _ => not_hit_of_free hfree
  · -- appended at the end
    rename_i hk
    have hend : freeSlot des = des.length := by
      rcases freeSlot_spec des with ⟨hk', _⟩ | he
      · exact absurd hk' hk
      · exact he
    rw [dirlookupLoop_append]
    by_cases hn : nameKey n = nameKey name
    · rw [if_pos hn, if_pos (hhit.2 hn), dirlookupLoop_eq_none.2 (fun d hd => hno d hd hn), hend, hinum.2]
      simp
    · rw [if_neg hn, if_neg (mt hhit.1 hn), Option.or_none]

/-! ## Directories as finite maps -/

/-- At most one live entry agrees with any name. -/
def Unique (des : List Dirent) : Prop := ∀ name, des.countP (fun de => decide (Hit name de)) ≤ 1

/-- What the file system keeps of every directory: no two live entries
agree, and the file is within `MAXFILE*BSIZE` bytes. -/
structure DirOk (des : List Dirent) : Prop where
  unique : Unique des
  size_le : 16 * des.length ≤ MAXFILE * BSIZE

/-- Two entries that agree with one name are one entry. -/
theorem Unique.eq_of_hit {des : List Dirent} (hu : Unique des) {name : List Char} {i j : Nat}
    (hi : i < des.length) (hj : j < des.length) (h₁ : Hit name des[i]) (h₂ : Hit name des[j]) : i = j := by
  by_contra hij
  -- with entry `i` zeroed, entry `j` still agrees, so `i` was a second one
  have hset := List.countP_set (p := fun de => decide (Hit name de)) (a := Dirent.zero) hi
  have hpos : 0 < (des.set i Dirent.zero).countP fun de => decide (Hit name de) := by
    rw [List.countP_pos_iff]
    exact ⟨des[j], List.mem_iff_getElem.2 ⟨j, by simpa using hj, List.getElem_set_ne hij _⟩,
      by simpa using h₂⟩
  have hz : ¬Hit name Dirent.zero := not_hit_of_free rfl
  simp only [decide_eq_true h₁, decide_eq_false hz, if_true, Bool.false_eq_true, if_false] at hset
  have := hu name
  omega

/-- **Zeroing the entry `dirlookup` found removes exactly that name** from a
directory whose live entries do not agree. -/
theorem dirlookup_unlinkEntry {des : List Dirent} (hok : DirOk des) {name : List Char} {off inum : Nat}
    (h : dirlookup des name = some (off, inum)) :
    ∃ des', unlinkEntry des off = some des' ∧
      ∀ n, dirlookup des' n = if nameKey n = nameKey name then none else dirlookup des n := by
  rw [dirlookup_eq] at h
  obtain ⟨k, hk, hr⟩ := Option.map_eq_some_iff.1 h
  obtain ⟨hlt, hhit, -⟩ := List.findIdx?_eq_some_iff_getElem.1 hk
  have hhit : Hit name des[k] := by simpa using hhit
  simp only [Prod.mk.injEq] at hr
  have hoff : off / 16 = k := by omega
  refine ⟨des.set k Dirent.zero, ?_, fun n => ?_⟩
  · rw [unlinkEntry, writeEntry, hoff, if_neg (by have := hok.size_le; omega), if_pos hlt]
  · rw [dirlookup, dirlookup]
    split
    · -- a name that agrees with the removed one agrees with no other live entry
      rename_i hn
      refine dirlookupLoop_eq_none.2 fun d hd hd' => ?_
      obtain ⟨j, hj, rfl⟩ := List.getElem_of_mem hd
      rw [List.length_set] at hj
      have hsame : Hit name des[j] ∧ j ≠ k := by
        by_cases hjk : j = k
        · subst hjk
          simp at hd'
          exact absurd hd' (not_hit_of_free rfl)
        · rw [List.getElem_set_ne (Ne.symm hjk)] at hd'
          exact ⟨hit_iff.2 ⟨(hit_iff.1 hd').1, (hit_iff.1 hd').2.trans hn⟩, hjk⟩
      exact hsame.2 (hok.unique.eq_of_hit hj hlt hsame.1 hhit)
    · -- the removed entry agrees only with names that agree with `name`
      rename_i hn
      refine dirlookupLoop_set_miss (not_hit_of_free rfl) des k 0 fun _ hk' => hn ?_
      rw [(hit_iff.1 hk').2.symm, (hit_iff.1 hhit).2]

/-- `dirlink` keeps a directory well formed: it writes a live entry only
for a name no live entry agrees with, and only within `MAXFILE*BSIZE`. -/
theorem DirOk.dirlink {des des' : List Dirent} (hok : DirOk des) {name : List Char} {inum : Nat} {r : Int}
    (h : dirlink des name inum = .ok (r, des')) : DirOk des' := by
  cases hl : dirlookup des name with
  | some _ =>
    rw [dirlink_present (by simp [hl])] at h
    simp only [Except.ok.injEq, Prod.mk.injEq] at h
    exact h.2 ▸ hok
  | none =>
    rw [dirlink_absent hl] at h
    set de : Dirent := ⟨UInt16.ofNat inum, strncpy name DIRSIZ, length_strncpy name DIRSIZ⟩
    -- the names the new entry agrees with agree with `name`, which no entry does
    have hnew : ∀ n, Hit n de → des.countP (fun d => decide (Hit n d)) = 0 := by
      intro n hn
      rw [List.countP_eq_zero]
      intro d hd hd'
      have hk : nameKey de.name = nameKey n := (hit_iff.1 hn).2
      rw [nameKey_strncpy] at hk
      exact dirlookupLoop_eq_none.1 hl d hd (hit_iff.2 ⟨(hit_iff.1 (of_decide_eq_true hd')).1,
        (hit_iff.1 (of_decide_eq_true hd')).2.trans hk.symm⟩)
    split at h
    · rename_i des₁ hw
      simp only [Except.ok.injEq, Prod.mk.injEq] at h
      rw [← h.2]
      unfold writeEntry at hw
      split at hw
      · cases hw
      rename_i hfit
      cases hw
      split
      · -- into a free entry
        rename_i hk
        obtain ⟨_, hfree⟩ | hend := freeSlot_spec des
        · refine ⟨fun n => ?_, by rw [List.length_set]; exact hok.size_le⟩
          rw [List.countP_set hk, if_neg (by simpa using not_hit_of_free hfree)]
          by_cases hn : Hit n de
          · rw [hnew n hn]
            split <;> simp
          · simpa [hn] using hok.unique n
        · omega
      · -- at the end
        rename_i hk
        obtain ⟨hk', _⟩ | hend := freeSlot_spec des
        · exact absurd hk' hk
        refine ⟨fun n => ?_, by rw [List.length_append, List.length_singleton]; omega⟩
        rw [List.countP_append]
        by_cases hn : Hit n de
        · rw [hnew n hn, List.countP_singleton]
          split <;> simp
        · simpa [hn] using hok.unique n
    · cases h

/-- Zeroing an entry keeps a directory well formed. -/
theorem DirOk.unlinkEntry {des des' : List Dirent} (hok : DirOk des) {off : Nat}
    (h : unlinkEntry des off = some des') : DirOk des' := by
  unfold Xv6.unlinkEntry writeEntry at h
  split at h
  · cases h
  cases h
  split
  · rename_i hk
    refine ⟨fun n => ?_, by rw [List.length_set]; exact hok.size_le⟩
    have hz : decide (Hit n Dirent.zero) = false := decide_eq_false (not_hit_of_free rfl)
    rw [List.countP_set hk, hz, if_neg Bool.false_ne_true, Nat.add_zero]
    have := hok.unique n
    omega
  · -- past the end: only where `dirlookup` found nothing
    rename_i hk _
    refine ⟨fun n => ?_, by rw [List.length_append, List.length_singleton]; omega⟩
    rw [List.countP_append, List.countP_singleton, if_neg (by simpa using not_hit_of_free rfl)]
    exact hok.unique n

/-! ## A directory over a run of `link` and `unlink` -/

/-- An operation on one directory. -/
inductive DirOp
  /-- `dirlink(dp, name, inum)`, as `link`, `create` and `mkdir` call it. -/
  | link (name : List Char) (inum : Nat)
  /-- `sys_unlink`'s `dirlookup` of the name and the zeroing of the entry it finds. -/
  | unlink (name : List Char)

/-- One operation; `none` where it panics. -/
def dirStep (des : List Dirent) : DirOp → Option (List Dirent)
  | .link name inum =>
    match dirlink des name inum with
    | .ok (_, des') => some des'
    | .error _ => none
  | .unlink name =>
    match dirlookup des name with
    | some (off, _) => unlinkEntry des off
    | none => some des

/-- The directories a run of operations reaches from an empty one. -/
def DirReachable (des : List Dirent) : Prop :=
  Framework.Reachable (· = []) (fun a b => ∃ op, dirStep a op = some b) des

theorem DirOk.dirStep {des des' : List Dirent} (hok : DirOk des) {op : DirOp}
    (h : Xv6.dirStep des op = some des') : DirOk des' := by
  cases op with
  | link name inum =>
    simp only [Xv6.dirStep] at h
    split at h
    · rename_i r hl
      cases h
      exact hok.dirlink hl
    · cases h
  | unlink name =>
    simp only [Xv6.dirStep] at h
    split at h
    · exact hok.unlinkEntry h
    · cases h
      exact hok

/-- **Every directory a run reaches is well formed**, so its lookups follow
`dirlookup_dirlink` and `dirlookup_unlinkEntry`: a finite map from
`DIRSIZ`-truncated names to inode numbers. -/
theorem DirReachable.ok {des : List Dirent} (h : DirReachable des) : DirOk des :=
  Framework.Reachable.inv (fun _ e => e ▸ ⟨fun _ => Nat.zero_le 1, Nat.zero_le _⟩)
    (fun _ _ hok ⟨_, hs⟩ => hok.dirStep hs) h

/-! ## A full directory -/

/-- `(Char.ofNat n).toNat = n` below the surrogates. -/
theorem toNat_charOfNat {n : Nat} (h : n < 55296) : (Char.ofNat n).toNat = n := by
  rw [Char.ofNat, dif_pos (Or.inl h)]
  rfl

/-- The `k`-th of the names `AAA`, `AAB`, …, `ZZZ`. -/
def threeLetters (k : Nat) : List Char :=
  [Char.ofNat (65 + k / 676), Char.ofNat (65 + k / 26 % 26), Char.ofNat (65 + k % 26)]

/-- The directory after linking `threeLetters 0`, …, `threeLetters (n - 1)`
to inode 2. -/
def lettered (n : Nat) : List Dirent :=
  (List.range n).map fun k => ⟨2, strncpy (threeLetters k) DIRSIZ, length_strncpy _ _⟩

theorem nameKey_threeLetters {k : Nat} (hk : k < 17576) : nameKey (threeLetters k) = threeLetters k := by
  have hnul : ∀ m, m < 26 → Char.ofNat (65 + m) ≠ '\x00' := fun m hm he => by
    have := toNat_charOfNat (show 65 + m < 55296 by omega)
    rw [he] at this
    have h0 : ('\x00' : Char).toNat = 0 := rfl
    omega
  rw [nameKey, threeLetters, beforeNul_cons, if_neg (hnul _ (by omega)), beforeNul_cons, if_neg (hnul _ (by omega)),
    beforeNul_cons, if_neg (hnul _ (by omega)), beforeNul_nil]
  rfl

theorem threeLetters_inj {k j : Nat} (hk : k < 17576) (hj : j < 17576) (h : threeLetters k = threeLetters j) :
    k = j := by
  simp only [threeLetters, List.cons.injEq, and_true] at h
  obtain ⟨h₁, h₂, h₃⟩ := h
  have e₁ := congrArg Char.toNat h₁
  have e₂ := congrArg Char.toNat h₂
  have e₃ := congrArg Char.toNat h₃
  rw [toNat_charOfNat (by omega), toNat_charOfNat (by omega)] at e₁ e₂ e₃
  omega

/-- Linking one more name into `lettered n` appends its entry. -/
theorem dirStep_lettered {n : Nat} (hn : n < 17152) :
    dirStep (lettered n) (.link (threeLetters n) 2) = some (lettered (n + 1)) := by
  -- no entry agrees with the new name
  have habs : dirlookup (lettered n) (threeLetters n) = none := by
    refine dirlookupLoop_eq_none.2 fun d hd hhit => ?_
    obtain ⟨j, hj, rfl⟩ := List.mem_map.1 hd
    rw [List.mem_range] at hj
    have hkey := (hit_iff.1 hhit).2
    dsimp only at hkey
    rw [nameKey_strncpy, nameKey_threeLetters (by omega), nameKey_threeLetters (by omega)] at hkey
    exact absurd (threeLetters_inj (by omega) (by omega) hkey) (by omega)
  -- every entry is live, so the free slot is the end
  have hslot : freeSlot (lettered n) = n := by
    rw [freeSlot, List.findIdx_eq_length_of_false]
    · simp [lettered]
    · intro d hd
      obtain ⟨j, -, rfl⟩ := List.mem_map.1 hd
      rfl
  simp only [dirStep, dirlink_absent habs, hslot, writeEntry]
  rw [if_neg (by simp only [MAXFILE, NDIRECT, NINDIRECT, BSIZE]; omega), if_neg (by simp [lettered])]
  simp [lettered, List.range_succ]

/-- `link` builds `lettered n` from an empty directory. -/
theorem run_lettered : ∀ n, n ≤ 17152 →
    Framework.run dirStep [] ((List.range n).map fun k => .link (threeLetters k) 2) = some (lettered n)
  | 0, _ => rfl
  | n + 1, hn => by
    rw [List.range_succ, List.map_append, Framework.run_append, run_lettered n (by omega), Option.bind_some]
    simp only [List.map_cons, List.map_nil, Framework.run]
    rw [dirStep_lettered (by omega), Option.bind_some]

/-- **`dirlink` panics on a full directory**: 17152 calls of `link` fill a
directory with live entries up to `MAXFILE*BSIZE` bytes; then `dirlink` of
a new name finds no free entry, `writei` at `dp->size` returns -1, and
`dirlink` panics instead of returning -1. -/
theorem dirlink_full_panics :
    Framework.run dirStep [] ((List.range 17152).map fun k => .link (threeLetters k) 2) = some (lettered 17152) ∧
      dirlookup (lettered 17152) ['x'] = none ∧ dirlink (lettered 17152) ['x'] 2 = .error "dirlink" := by
  have habs : dirlookup (lettered 17152) ['x'] = none := by
    refine dirlookupLoop_eq_none.2 fun d hd hhit => ?_
    obtain ⟨j, hj, rfl⟩ := List.mem_map.1 hd
    rw [List.mem_range] at hj
    have hkey := (hit_iff.1 hhit).2
    dsimp only at hkey
    rw [nameKey_strncpy, nameKey_threeLetters (by omega)] at hkey
    -- three letters against one
    have := congrArg List.length hkey
    simp [threeLetters, nameKey, beforeNul, DIRSIZ] at this
  have hslot : freeSlot (lettered 17152) = 17152 := by
    rw [freeSlot, List.findIdx_eq_length_of_false]
    · simp [lettered]
    · intro d hd
      obtain ⟨j, -, rfl⟩ := List.mem_map.1 hd
      rfl
  refine ⟨run_lettered 17152 le_rfl, habs, ?_⟩
  rw [dirlink_absent habs, hslot, writeEntry, if_pos (by simp only [MAXFILE, NDIRECT, NINDIRECT, BSIZE]; omega)]

end Xv6
