import Xv6.Dev.Console

/-!
# A line editor: what the console's input is for

The console's input, said with lists (`LineEditor`): the committed bytes
not yet read (`unread`), the line being edited (`line`), and every byte
ever committed (`cooked`). A byte of input (`LineEditor.intr`) is dropped
when `INPUT_BUF` bytes are held; ^U empties the line, ^H and DEL drop its
last byte, `'\r'` becomes `'\n'`, NUL is dropped, and a newline, a ^D or a
full buffer commits the line with the byte. A read (`readLine`) takes
committed bytes up to and including a newline, stops before a ^D unless it
has read nothing (it then consumes the ^D and returns 0), and waits while
none are committed.

Over every run with no reader killed (`LineEditor.Sound`): the bytes the
reads returned, in order, with the one in progress, are the cooked input
without its ^Ds, up to what is still unread; each read returned at most one
line, and its count is the number of its bytes.
-/

namespace Xv6

open Framework

/-- How a read of the editor stands: waiting for input with `n` bytes left
and `out` read, or done, returning `r` with the bytes `out`. -/
inductive Reading
  | wait (n : Nat) (out : List UInt8)
  | done (r : Int) (out : List UInt8)

/-- A read of at most `n` more bytes after `out` from the committed bytes
`u`: the bytes left, and how the read stands. -/
def readLine (killed : Bool) : Nat → List UInt8 → List UInt8 → List UInt8 × Reading
  | 0, u, out => (u, .done out.length out)
  | n + 1, [], out => ([], if killed then .done (-1) [] else .wait (n + 1) out)
  | n + 1, c :: u, out =>
    if c = C 'D' then (if out = [] then u else c :: u, .done out.length out)
    else if c = ch '\n' then (u, .done (out.length + 1) (out ++ [c]))
    else readLine killed n u (out ++ [c])

/-- The console's input as lists, with a reader and the history of reads. -/
structure LineEditor where
  unread : List UInt8
  line : List UInt8
  /-- The read in progress: bytes left, and the bytes read. -/
  reading : Option (Nat × List UInt8)
  returned : List (Int × List UInt8)
  /-- Every byte committed so far: the cooked input. -/
  cooked : List UInt8

namespace LineEditor

/-- A byte added to the line: a newline, a ^D or a full buffer commits the
line with it. -/
def store (E : LineEditor) (c : UInt8) : LineEditor :=
  if c = ch '\n' ∨ c = C 'D' ∨ E.unread.length + E.line.length + 1 = INPUT_BUF then
    { E with unread := E.unread ++ E.line ++ [c], line := [], cooked := E.cooked ++ E.line ++ [c] }
  else { E with line := E.line ++ [c] }

/-- A byte of input. -/
def intr (E : LineEditor) (c : UInt8) : LineEditor :=
  if c = C 'P' then E
  else if c = C 'U' then { E with line := [] }
  else if c = C 'H' ∨ c = 0x7f then { E with line := E.line.dropLast }
  else if c ≠ 0 ∧ E.unread.length + E.line.length < INPUT_BUF then
    E.store (if c = ch '\r' then ch '\n' else c)
  else E

/-- The editor after a read went as far as it could. -/
def finish (E : LineEditor) : List UInt8 × Reading → LineEditor
  | (u, .wait n out) => { E with unread := u, reading := some (n, out) }
  | (u, .done r out) => { E with unread := u, reading := none, returned := E.returned ++ [(r, out)] }

/-- One event, as the console's. -/
def next (E : LineEditor) : ConsEv → Option LineEditor
  | .intr c => some (E.intr c)
  | .read _ _ n killed =>
    match E.reading with
    | some _ => none
    | none => some (E.finish (readLine killed n E.unread []))
  | .wake killed =>
    match E.reading with
    | none => none
    | some (n, out) => some (E.finish (readLine killed n E.unread out))

def boot : LineEditor := ⟨[], [], none, [], []⟩

/-- The bytes of the read in progress. -/
def pending (E : LineEditor) : List UInt8 :=
  match E.reading with
  | some (_, out) => out
  | none => []

end LineEditor

/-! ## Reads return the cooked input -/

/-- What a read did, having taken `taken` from the committed bytes with
`out` read before: a waiting read added them all, a finished one all but a
^D; neither holds a ^D, and only a finished one's last byte may be a
newline. -/
def Reading.Sound (out taken : List UInt8) : Reading → Prop
  | .wait _ out' => out' = out ++ taken ∧ C 'D' ∉ out' ∧ ch '\n' ∉ out'
  | .done r out' =>
    out ++ taken.filter (· != C 'D') = out' ∧ r = out'.length ∧ C 'D' ∉ out' ∧ ch '\n' ∉ out'.dropLast

theorem ctrlD_ne_nl : C 'D' ≠ ch '\n' := by decide

/-- **A read takes bytes from the head of the committed ones**, and keeps
what it read free of ^Ds and newlines but for a last newline. -/
theorem readLine_spec (n : Nat) : ∀ {u o : List UInt8}, C 'D' ∉ o → ch '\n' ∉ o →
    ∃ taken, u = taken ++ (readLine false n u o).1 ∧ (readLine false n u o).2.Sound o taken := by
  induction n with
  | zero =>
    intro u out hd hn
    exact ⟨[], rfl, by simp, rfl, hd, fun h => hn (List.dropLast_subset _ h)⟩
  | succ n ih =>
    intro u out hd hn
    cases u with
    | nil => exact ⟨[], rfl, by simp, hd, hn⟩
    | cons c u =>
      simp only [readLine]
      split_ifs with hD hout hnl
      · -- a ^D at the head of an empty read is consumed
        subst hD hout
        exact ⟨[C 'D'], rfl, by simp, rfl, hd, fun h => hn (List.dropLast_subset _ h)⟩
      · exact ⟨[], rfl, by simp, rfl, hd, fun h => hn (List.dropLast_subset _ h)⟩
      · subst hnl
        refine ⟨[ch '\n'], rfl, by simp [ctrlD_ne_nl.symm], by simp, ?_, by simpa using hn⟩
        simpa [ctrlD_ne_nl] using hd
      · obtain ⟨taken, hu, hs⟩ := ih (u := u) (o := out ++ [c]) (by simpa [Ne.symm hD] using hd)
          (by simpa [Ne.symm hnl] using hn)
        refine ⟨c :: taken, by rw [List.cons_append, ← hu], ?_⟩
        revert hs
        cases (readLine false n u (out ++ [c])).2 with
        | wait n' out' =>
          rintro ⟨h₁, h₂, h₃⟩
          exact ⟨by rw [h₁, List.append_assoc, List.singleton_append], h₂, h₃⟩
        | done r out' =>
          rintro ⟨h₁, h₂, h₃, h₄⟩
          refine ⟨?_, h₂, h₃, h₄⟩
          rw [← h₁, List.filter_cons, if_pos (by simpa using hD), List.append_assoc, List.singleton_append]

namespace LineEditor

/-- Input commits bytes at the end of the unread ones, the same bytes the
cooked input gains, and leaves the reads alone. -/
theorem intr_cooked (E : LineEditor) (c : UInt8) :
    ∃ added, (E.intr c).cooked = E.cooked ++ added ∧ (E.intr c).unread = E.unread ++ added ∧
      (E.intr c).reading = E.reading ∧ (E.intr c).returned = E.returned := by
  have hnil : ∀ E' : LineEditor, E'.cooked = E.cooked → E'.unread = E.unread → E'.reading = E.reading →
      E'.returned = E.returned → ∃ added, E'.cooked = E.cooked ++ added ∧ E'.unread = E.unread ++ added ∧
        E'.reading = E.reading ∧ E'.returned = E.returned :=
    fun E' h₁ h₂ h₃ h₄ => ⟨[], by rw [h₁, List.append_nil], by rw [h₂, List.append_nil], h₃, h₄⟩
  have hstore : ∀ c', ∃ added, (E.store c').cooked = E.cooked ++ added ∧ (E.store c').unread = E.unread ++ added ∧
      (E.store c').reading = E.reading ∧ (E.store c').returned = E.returned := fun c' => by
    unfold store
    split_ifs
    · exact ⟨_, List.append_assoc _ _ _, List.append_assoc _ _ _, rfl, rfl⟩
    · exact hnil _ rfl rfl rfl rfl
  -- the cases of `intr`, with `'\r'` and other bytes stored apart
  unfold intr
  split_ifs
  · exact hnil E rfl rfl rfl rfl
  · exact hnil _ rfl rfl rfl rfl
  · exact hnil _ rfl rfl rfl rfl
  · exact hstore _
  · exact hstore _
  · exact hnil E rfl rfl rfl rfl

/-- What runs with no reader killed keep: every committed byte but the ^Ds
is, in order, in a finished read, in the one in progress, or still unread;
and each finished read returned its bytes' count, with no ^D and at most one
newline, at the end. -/
structure Sound (E : LineEditor) : Prop where
  cooked : ∃ consumed, E.cooked = consumed ++ E.unread ∧
    consumed.filter (· != C 'D') = (E.returned.map Prod.snd).flatten ++ E.pending
  returned : ∀ x ∈ E.returned, x.1 = x.2.length ∧ C 'D' ∉ x.2 ∧ ch '\n' ∉ x.2.dropLast
  pending : C 'D' ∉ E.pending ∧ ch '\n' ∉ E.pending

namespace Sound

variable {E E' : LineEditor}

theorem boot : LineEditor.boot.Sound :=
  ⟨⟨[], rfl, rfl⟩, fun _ h => by simp [LineEditor.boot] at h, by simp [LineEditor.boot, LineEditor.pending]⟩

theorem intr (h : E.Sound) (c : UInt8) : (E.intr c).Sound := by
  obtain ⟨added, hc, hu, hr, hret⟩ := intr_cooked E c
  obtain ⟨consumed, hcu, hf⟩ := h.cooked
  have hp : (E.intr c).pending = E.pending := by simp only [LineEditor.pending, hr]
  refine ⟨⟨consumed, by rw [hc, hu, hcu, List.append_assoc], by rw [hret, hp]; exact hf⟩, ?_, ?_⟩
  · rw [hret]
    exact h.returned
  · rw [hp]
    exact h.pending

/-- A read from `out` on that took `taken` keeps the editor sound. -/
theorem finish (h : E.Sound) {out taken u : List UInt8} {rd : Reading} (hout : E.pending = out)
    (hu : E.unread = taken ++ u) (hs : rd.Sound out taken) : (E.finish (u, rd)).Sound := by
  obtain ⟨consumed, hcu, hf⟩ := h.cooked
  cases rd with
  | wait n out' =>
    obtain ⟨rfl, hd, hn⟩ := hs
    have htk : taken.filter (· != C 'D') = taken := List.filter_eq_self.2 fun x hx => by
      have hx' : x ≠ C 'D' := fun e => hd (List.mem_append_right _ (e ▸ hx))
      simpa using hx'
    refine ⟨⟨consumed ++ taken, by simp only [LineEditor.finish]; rw [hcu, hu, List.append_assoc], ?_⟩, h.returned, ?_⟩
    · simp only [LineEditor.finish, LineEditor.pending]
      rw [List.filter_append, hf, hout, htk, List.append_assoc]
    · simp only [LineEditor.finish, LineEditor.pending]
      exact ⟨hd, hn⟩
  | done r out' =>
    obtain ⟨hout', hr, hd, hn⟩ := hs
    refine ⟨⟨consumed ++ taken, by simp only [LineEditor.finish]; rw [hcu, hu, List.append_assoc], ?_⟩, ?_, ?_⟩
    · simp only [LineEditor.finish, LineEditor.pending]
      rw [List.filter_append, hf, hout, List.append_assoc, hout']
      simp
    · intro x hx
      simp only [LineEditor.finish, List.mem_append, List.mem_singleton] at hx
      rcases hx with hx | rfl
      · exact h.returned x hx
      · exact ⟨hr, hd, hn⟩
    · simp [LineEditor.finish, LineEditor.pending]

/-- **Every good event keeps the editor sound.** -/
theorem next (h : E.Sound) {ev : ConsEv} (hev : ev.Good) (hn : E.next ev = some E') : E'.Sound := by
  cases ev with
  | intr c =>
    cases hn
    exact h.intr c
  | read m dst n killed =>
    obtain ⟨rfl, -⟩ := hev
    simp only [LineEditor.next] at hn
    split at hn
    · cases hn
    · rename_i hr
      cases hn
      have hp : E.pending = [] := by simp only [LineEditor.pending, hr]
      obtain ⟨taken, hu, hs⟩ := readLine_spec n (u := E.unread) (o := []) (by simp) (by simp)
      exact h.finish hp hu hs
  | wake killed =>
    cases hev
    simp only [LineEditor.next] at hn
    split at hn
    · cases hn
    · rename_i n out hr
      cases hn
      have hp : E.pending = out := by simp only [LineEditor.pending, hr]
      obtain ⟨hd, hnl⟩ := h.pending
      rw [hp] at hd hnl
      obtain ⟨taken, hu, hs⟩ := readLine_spec n (u := E.unread) hd hnl
      exact h.finish hp hu hs

end Sound

end LineEditor

end Xv6
