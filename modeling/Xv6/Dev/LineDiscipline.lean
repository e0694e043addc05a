import Xv6.Dev.LineEditor

/-!
# The console refines the line editor

`consoleintr` acts on the unread bytes and the line of the ring as
`LineEditor.intr` acts on its lists (`consoleintr_spec`), and a run of
`consolereadLoop` takes from the ring what `readLine` takes from the list,
copying out the bytes it reads (`consolereadLoop_spec`). So the console and
the editor, run on the same events, stay related (`Refines.next`), and over
every run of good events from boot the reads return the cooked input, one
line at most each, with the ring's counters in order however far they have
wrapped (`console_line_discipline`).
-/

namespace Xv6

open Framework

variable {s : Cons} {E : LineEditor}

/-- The ring's bytes, as many as the editor holds. -/
theorem length_unread_line (hu : s.unread = E.unread) (hl : s.line = E.line) :
    E.unread.length + E.line.length = (s.e - s.r).toNat := by
  rw [← hu, ← hl, ← List.length_append, Cons.unread_append_line, Cons.length_view]

/-- Storing `c` in a ring with room, then committing at a newline, a ^D or
a full ring, is the editor's `store`. -/
theorem store_spec (hI : s.Inv) (hu : s.unread = E.unread) (hl : s.line = E.line)
    (hroom : (s.e - s.r).toNat < INPUT_BUF) (c : UInt8) :
    let s₁ : Cons := { s with buf := Function.update s.buf (s.e.toNat % INPUT_BUF) c, e := s.e + 1 }
    let s₂ : Cons := if c = ch '\n' ∨ c = C 'D' ∨ s₁.e = s₁.r + INPUT_BUF.toUInt32 then { s₁ with w := s₁.e } else s₁
    s₂.Inv ∧ s₂.unread = (E.store c).unread ∧ s₂.line = (E.store c).line := by
  intro s₁ s₂
  have he : (s₁.e - s₁.r).toNat = (s.e - s.r).toNat + 1 :=
    sub_toNat_add_one (a := s.r) (b := s.e) (by unfold INPUT_BUF at hroom; omega)
  have hfull : s₁.e = s₁.r + INPUT_BUF.toUInt32 ↔ E.unread.length + E.line.length + 1 = INPUT_BUF := by
    rw [Cons.full_iff, he, length_unread_line hu hl]
  have hstore_u : s₁.unread = s.unread := Cons.store_unread hI hroom c
  have hstore_l : s₁.line = s.line ++ [c] := Cons.store_line hI hroom c
  unfold LineEditor.store
  by_cases hcommit : c = ch '\n' ∨ c = C 'D' ∨ E.unread.length + E.line.length + 1 = INPUT_BUF
  · have hc₁ : c = ch '\n' ∨ c = C 'D' ∨ s₁.e = s₁.r + INPUT_BUF.toUInt32 := by
      rcases hcommit with h | h | h
      exacts [.inl h, .inr (.inl h), .inr (.inr (hfull.2 h))]
    simp only [s₂, if_pos hc₁, if_pos hcommit]
    refine ⟨Cons.Inv.commit (by rw [he]; omega), ?_, Cons.commit_line _⟩
    rw [Cons.commit_unread, ← Cons.unread_append_line, hstore_u, hstore_l, hu, hl, List.append_assoc]
  · have hc₁ : ¬(c = ch '\n' ∨ c = C 'D' ∨ s₁.e = s₁.r + INPUT_BUF.toUInt32) := by
      rintro (h | h | h)
      exacts [hcommit (.inl h), hcommit (.inr (.inl h)), hcommit (.inr (.inr (hfull.1 h)))]
    simp only [s₂, if_neg hc₁, if_neg hcommit]
    exact ⟨Cons.Inv.store hI hroom fun h => hcommit (.inl h), hstore_u.trans hu, by rw [hstore_l, hl]⟩

/-- **`consoleintr` is the editor's `intr`** on the ring's lists. -/
theorem consoleintr_spec (hI : s.Inv) (hu : s.unread = E.unread) (hl : s.line = E.line) (c : UInt8) :
    (consoleintr s c).Inv ∧ (consoleintr s c).unread = (E.intr c).unread ∧ (consoleintr s c).line = (E.intr c).line := by
  have hlen := length_unread_line hu hl
  unfold consoleintr LineEditor.intr
  by_cases hP : c = C 'P'
  · simp only [if_pos hP]
    exact ⟨hI, hu, hl⟩
  simp only [if_neg hP]
  by_cases hU : c = C 'U'
  · simp only [if_pos hU]
    obtain ⟨hI', hu', hl', -⟩ := Cons.killLine_spec (s.e - s.w).toNat hI (le_refl _)
    exact ⟨hI', hu'.trans hu, hl'⟩
  simp only [if_neg hU]
  by_cases hH : c = C 'H' ∨ c = 0x7f
  · simp only [if_pos hH]
    split_ifs with he
    · exact ⟨hI.erase he, (Cons.erase_unread hI he).trans hu, by rw [Cons.erase_line hI he, hl]⟩
    · have hnil : s.line = [] := (Cons.line_eq_nil hI).2 (not_not.1 he)
      exact ⟨hI, hu, by rw [← hl, hnil]; rfl⟩
  simp only [if_neg hH]
  by_cases hroom : c ≠ 0 ∧ (s.e - s.r).toNat < INPUT_BUF
  · rw [if_pos (show c ≠ 0 ∧ s.e - s.r < INPUT_BUF.toUInt32 from ⟨hroom.1, (Cons.room_iff s).2 hroom.2⟩),
      if_pos (show c ≠ 0 ∧ E.unread.length + E.line.length < INPUT_BUF from ⟨hroom.1, by omega⟩)]
    exact store_spec hI hu hl hroom.2 _
  · rw [if_neg (show ¬(c ≠ 0 ∧ s.e - s.r < INPUT_BUF.toUInt32) from fun h => hroom ⟨h.1, (Cons.room_iff s).1 h.2⟩),
      if_neg (show ¬(c ≠ 0 ∧ E.unread.length + E.line.length < INPUT_BUF) from fun h => hroom ⟨h.1, by omega⟩)]
    exact ⟨hI, hu, hl⟩

/-- A run of the reader's loop and a read of the editor end alike: both
asleep with the same bytes left and the bytes read so far in the reader's
buffer, or both returned the same result, the buffer holding the bytes it
counts. -/
def ReadMatch (target dst₀ : Nat) : Space UInt8 × ConsReadEnd → Reading → Prop
  | (m, .sleep n dst), .wait n' out =>
    n = n' ∧ out.length + n = target ∧ dst = dst₀ + out.length ∧ m.read dst₀ out.length = out
  | (m, .ret r), .done r' out => r = r' ∧ m.read dst₀ r.toNat = out
  | _, _ => False

/-- `r++` then `r--` leaves `cons` as it was. -/
theorem Cons.take_untake (s : Cons) : ({ ({ s with r := s.r + 1 } : Cons) with r := s.r + 1 - 1 } : Cons) = s := by
  rw [add_sub_cancel_right]

/-- **A run of `consoleread`'s loop is a read of the editor**: with its
buffer's pages accessible, it takes from the ring what `readLine` takes from
the unread bytes, and leaves in the buffer what it reads. -/
theorem consolereadLoop_spec (killed : Bool) (target : Nat) (n : Nat) :
    ∀ {s : Cons} {m : Space UInt8} {dst dst₀ : Nat} {out : List UInt8}, s.Inv →
      out.length + n = target → dst = dst₀ + out.length → m.read dst₀ out.length = out →
      (∀ i < n, m.ok ((dst + i) / PGSIZE * PGSIZE) = true) →
      (consolereadLoop killed target n s m dst).1.Inv ∧
      (consolereadLoop killed target n s m dst).1.unread = (readLine killed n s.unread out).1 ∧
      (consolereadLoop killed target n s m dst).1.line = s.line ∧
      (consolereadLoop killed target n s m dst).2.1.ok = m.ok ∧
      ReadMatch target dst₀ (consolereadLoop killed target n s m dst).2 (readLine killed n s.unread out).2 := by
  induction n with
  | zero =>
    intro s m dst dst₀ out hI ht hd hm _
    subst ht
    exact ⟨hI, rfl, rfl, rfl, rfl, by simpa using hm⟩
  | succ n ih =>
    intro s m dst dst₀ out hI ht hd hm hok
    by_cases hrw : s.r = s.w
    · -- nothing committed: asleep, or killed
      rw [consolereadLoop, if_pos hrw, (Cons.unread_eq_nil hI).2 hrw]
      cases killed
      · exact ⟨hI, (Cons.unread_eq_nil hI).2 hrw, rfl, rfl, rfl, ht, hd, hm⟩
      · exact ⟨hI, (Cons.unread_eq_nil hI).2 hrw, rfl, rfl, rfl, rfl⟩
    rw [consolereadLoop, if_neg hrw, Cons.take_unread hI hrw]
    have hI₁ := hI.take hrw
    have hl₁ := Cons.take_line hI hrw
    simp only [readLine]
    by_cases hD : s.buf (s.r.toNat % INPUT_BUF) = C 'D'
    · -- a ^D: put back unless the read is empty
      rw [if_pos hD, if_pos hD]
      by_cases hout : out = []
      · subst hout
        have ht' : target - (n + 1) = 0 := by simp at ht; omega
        rw [if_neg (by omega), if_pos rfl]
        exact ⟨hI₁, rfl, hl₁, rfl, by rw [ht']; rfl, by rw [ht']; rfl⟩
      · rw [if_pos (by have := List.length_pos_iff.2 hout; omega), if_neg hout, Cons.take_untake]
        refine ⟨hI, by rw [Cons.take_unread hI hrw, hD], rfl, rfl, by omega, ?_⟩
        rw [show ((target - (n + 1) : Nat) : Int).toNat = out.length by omega]
        exact hm
    rw [if_neg hD, if_neg hD]
    -- the byte is copied out to an accessible page
    have hcp : m.copyout PGSIZE dst [s.buf (s.r.toNat % INPUT_BUF)] = (0, m.write dst [s.buf (s.r.toNat % INPUT_BUF)]) :=
      Space.copyout_of_ok m fun i hi => by
        rw [show i = 0 by simpa using hi]
        exact hok 0 (by omega)
    have hm₁ : (m.write dst [s.buf (s.r.toNat % INPUT_BUF)]).read dst₀ (out ++ [s.buf (s.r.toNat % INPUT_BUF)]).length =
        out ++ [s.buf (s.r.toNat % INPUT_BUF)] := by
      rw [List.length_append, List.length_singleton, hd]
      exact Space.read_write_snoc m hm _
    simp only [hcp]
    rw [if_neg (by decide)]
    by_cases hnl : s.buf (s.r.toNat % INPUT_BUF) = ch '\n'
    · -- a newline ends the read
      rw [if_pos hnl, if_pos hnl]
      refine ⟨hI₁, rfl, hl₁, rfl, by omega, ?_⟩
      rw [show ((target - n : Nat) : Int).toNat = (out ++ [s.buf (s.r.toNat % INPUT_BUF)]).length by simp; omega]
      exact hm₁
    · rw [if_neg hnl, if_neg hnl]
      obtain ⟨hI', hu', hl', hok', hmatch⟩ := @ih _ _ (dst + 1) dst₀ _ hI₁ (by simp; omega) (by simp; omega) hm₁
        (fun i hi => by rw [Space.write_ok, show dst + 1 + i = dst + (i + 1) by omega]; exact hok (i + 1) (by omega))
      exact ⟨hI', hu', hl'.trans hl₁, hok'.trans (Space.write_ok _ _ _), hmatch⟩

/-! ## The console and the editor, event by event -/

/-- The sleeping reader and the editor's read in progress agree: the same
bytes left, the bytes read so far in the reader's buffer, and the buffer on
accessible pages. -/
def ReaderMatch : Option ConsReader → Option (Nat × List UInt8) → Prop
  | none, none => True
  | some rd, some (n, out) => rd.n = n ∧ out.length + n = rd.target ∧ rd.dst = rd.dst₀ + out.length ∧
      rd.m.read rd.dst₀ out.length = out ∧ ∀ i < rd.target, rd.m.ok ((rd.dst₀ + i) / PGSIZE * PGSIZE) = true
  | _, _ => False

/-- The console holds what the editor holds. -/
structure Refines (s : Console) (E : LineEditor) : Prop where
  inv : s.cons.Inv
  unread : s.cons.unread = E.unread
  line : s.cons.line = E.line
  returned : s.returned = E.returned
  reader : ReaderMatch s.reader E.reading

namespace Refines

theorem boot : Refines Console.boot LineEditor.boot :=
  ⟨⟨le_refl _, by simp [Console.boot, INPUT_BUF], by simp [Console.boot, Cons.line, Cons.view, ringView]⟩,
    by simp [Console.boot, Cons.unread, Cons.view, ringView, LineEditor.boot],
    by simp [Console.boot, Cons.line, Cons.view, ringView, LineEditor.boot], rfl, trivial⟩

/-- The console after a run of the reader's loop holds what the editor
holds after the read. -/
theorem resume {s : Console} (hret : s.returned = E.returned) {rd : ConsReader} {c : Cons} {m : Space UInt8}
    {en : ConsReadEnd} {u : List UInt8} {rdg : Reading} (hI : c.Inv) (hu : c.unread = u) (hl : c.line = E.line)
    (hok : m.ok = rd.m.ok) (hpages : ∀ i < rd.target, rd.m.ok ((rd.dst₀ + i) / PGSIZE * PGSIZE) = true)
    (hmatch : ReadMatch rd.target rd.dst₀ (m, en) rdg) :
    Refines (s.resume rd (c, m, en)) (E.finish (u, rdg)) := by
  cases en with
  | sleep n dst =>
    cases rdg with
    | wait n' out =>
      obtain ⟨rfl, ht, hd, hm⟩ := hmatch
      exact ⟨hI, hu, hl, hret, rfl, ht, hd, hm, by rw [hok]; exact hpages⟩
    | done r out => exact hmatch.elim
  | ret r =>
    cases rdg with
    | wait n' out => exact hmatch.elim
    | done r' out =>
      obtain ⟨rfl, hm⟩ := hmatch
      refine ⟨hI, hu, hl, ?_, trivial⟩
      simp only [Console.resume, LineEditor.finish, hret, hm]

/-- **Every good event keeps the console and the editor related.** -/
theorem next {s s' : Console} (h : Refines s E) {ev : ConsEv} (hev : ev.Good) (hs : s.next ev = some s') :
    ∃ E', E.next ev = some E' ∧ Refines s' E' := by
  cases ev with
  | intr c =>
    cases hs
    obtain ⟨added, -, -, hr, hret⟩ := LineEditor.intr_cooked E c
    obtain ⟨hI, hu, hl⟩ := consoleintr_spec h.inv h.unread h.line c
    exact ⟨E.intr c, rfl, hI, hu, hl, h.returned.trans hret.symm, by rw [hr]; exact h.reader⟩
  | read m dst n killed =>
    obtain ⟨-, hpages⟩ := hev
    have hmatch := h.reader
    simp only [Console.next] at hs
    split at hs
    · cases hs
    · rename_i hnone
      cases hs
      rw [hnone] at hmatch
      cases hE : E.reading with
      | some x => rw [hE] at hmatch; exact hmatch.elim
      | none =>
        refine ⟨E.finish (readLine killed n E.unread []), by simp only [LineEditor.next, hE], ?_⟩
        obtain ⟨hI, hu, hl, hok, hm⟩ := @consolereadLoop_spec killed n n s.cons m dst dst [] h.inv (Nat.zero_add n)
          rfl rfl hpages
        rw [h.unread] at hu hm
        exact resume h.returned hI hu (hl.trans h.line) hok hpages hm
  | wake killed =>
    have hmatch := h.reader
    simp only [Console.next] at hs
    split at hs
    · cases hs
    · rename_i rd hrd
      cases hs
      rw [hrd] at hmatch
      cases hE : E.reading with
      | none => rw [hE] at hmatch; exact hmatch.elim
      | some x =>
        obtain ⟨n, out⟩ := x
        rw [hE] at hmatch
        obtain ⟨rfl, ht, hd, hm, hpages⟩ := hmatch
        refine ⟨E.finish (readLine killed rd.n E.unread out), by simp only [LineEditor.next, hE], ?_⟩
        obtain ⟨hI, hu, hl, hok, hm'⟩ := consolereadLoop_spec killed rd.target rd.n h.inv ht hd hm
          fun i hi => by rw [hd, Nat.add_assoc]; exact hpages _ (by omega)
        rw [h.unread] at hu hm'
        exact resume h.returned hI hu (hl.trans h.line) hok hpages hm'

end Refines

/-- **The console's line discipline.** Over every run of `consoleintr` and
`consoleread` from boot in which no reader is killed and every read's buffer
is accessible: the console does what the line editor does, event by event,
so its reads return the cooked input in order (every committed byte but the
^Ds is in a finished read, in the read in progress or still unread), each
read returns the count of its bytes, with no ^D and at most one newline, at
its end; and the counters stay in order, `r ≤ w ≤ e ≤ r + INPUT_BUF` as
32-bit distances, however far they have wrapped. -/
theorem console_line_discipline {evs : List ConsEv} (hev : ∀ ev ∈ evs, ev.Good) {s : Console}
    (h : run Console.next Console.boot evs = some s) :
    ∃ E, run LineEditor.next LineEditor.boot evs = some E ∧ s.returned = E.returned ∧ s.cons.unread = E.unread ∧
      s.cons.line = E.line ∧ (s.cons.w - s.cons.r).toNat ≤ (s.cons.e - s.cons.r).toNat ∧
      (s.cons.e - s.cons.r).toNat ≤ INPUT_BUF ∧
      (∀ x ∈ s.returned, x.1 = x.2.length ∧ C 'D' ∉ x.2 ∧ ch '\n' ∉ x.2.dropLast) ∧
      ∃ consumed, E.cooked = consumed ++ E.unread ∧
        consumed.filter (· != C 'D') = (s.returned.map Prod.snd).flatten ++ E.pending := by
  obtain ⟨E, hE, hR⟩ := @run_sim Console LineEditor ConsEv Console.next LineEditor.next Refines ConsEv.Good
    (fun _ _ _ _ hl hR hn => hR.next hl hn) evs _ _ _ hev Refines.boot h
  have hS : E.Sound := @run_inv LineEditor ConsEv LineEditor.next ConsEv.Good LineEditor.Sound
    (fun _ _ _ hl hS hn => hS.next hl hn) evs _ _ hev LineEditor.Sound.boot hE
  obtain ⟨consumed, hc, hf⟩ := hS.cooked
  refine ⟨E, hE, hR.returned, hR.unread, hR.line, hR.inv.w_le, hR.inv.e_le, ?_, consumed, hc, ?_⟩
  · rw [hR.returned]
    exact hS.returned
  · rw [hR.returned]
    exact hf

/-- `h`, `i` and a carriage return typed, then a read of 10 bytes: the read
returns the line `"hi\n"`. -/
theorem console_line_discipline_hi :
    let evs : List ConsEv :=
      [.intr (ch 'h'), .intr (ch 'i'), .intr (ch '\r'), .read ⟨fun _ => true, fun _ => 0⟩ 0 10 false]
    (∀ ev ∈ evs, ev.Good) ∧ ∃ s, run Console.next Console.boot evs = some s ∧
      s.returned = [(3, [ch 'h', ch 'i', ch '\n'])] := by
  intro evs
  have hev : ∀ ev ∈ evs, ev.Good := by
    intro ev hev
    simp only [evs, List.mem_cons, List.not_mem_nil, or_false] at hev
    rcases hev with rfl | rfl | rfl | rfl
    · trivial
    · trivial
    · trivial
    · exact ⟨rfl, fun _ _ => rfl⟩
  obtain ⟨s, hs⟩ : ∃ s, run Console.next Console.boot evs = some s := ⟨_, rfl⟩
  obtain ⟨E, hE, hret, -⟩ := console_line_discipline hev hs
  have hE₀ : run LineEditor.next LineEditor.boot evs =
      some ⟨[], [], none, [(3, [ch 'h', ch 'i', ch '\n'])], [ch 'h', ch 'i', ch '\n']⟩ := rfl
  rw [hE₀, Option.some.injEq] at hE
  exact ⟨hev, s, hs, by rw [hret, ← hE]⟩

end Xv6
