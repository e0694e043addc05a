import Xv6.User.Sh

/-!
# Printing a command and parsing it back

A command tree as the shell's user writes it (`ShCmd`): exec commands of
words, redirections to a file, pipes, lists and background commands. The
printer (`ShCmd.print`) writes the words of an exec command separated by
spaces and every sub-command that is not an exec command in parentheses.
For every well-formed tree (`ShCmd.Wf`: one to `MAXARGS - 1` words, each a
non-empty C string with no whitespace and no symbol, and the modes and fds
of `<`, `>` and `>>`), `parsecmd` of the printed line succeeds, and the
command it returns, read in the line `nulterminate` leaves, is the tree
(`parsecmd_print`).

The proof follows the parser. On the way the command is related to the tree
by where each word lies in the line (`Reads`); each parse is shown to return
such a command when given a printed command followed by what may follow it
there (`Follows`): `parseexec` a parenthesised or exec command with its
redirections, `parsepipe` and `parseline` the rest. Last, `nulterminate`
ends each word with a NUL and touches no character of any word, since it
writes only where a word has ended (`view_nulterminate`).
-/

namespace Xv6

/-- A command tree, its words as strings. -/
inductive ShCmd
  | exec (argv : List (List Char))
  | redir (cmd : ShCmd) (file : List Char) (mode fd : Nat)
  | pipe (left right : ShCmd)
  | list (left right : ShCmd)
  | back (cmd : ShCmd)
deriving Repr, DecidableEq

namespace ShCmd

def isExec : ShCmd → Bool
  | .exec _ => true
  | _ => false

/-- A sub-command as the printer writes it: in parentheses unless it is an
exec command. -/
def paren (t : ShCmd) (s : List Char) : List Char :=
  if t.isExec then s else '(' :: s ++ [')']

end ShCmd

/-- The operator of a redirection's mode. -/
def redirOp (mode : Nat) : List Char :=
  if mode = O_RDONLY then ['<'] else if mode = O_WRONLY ||| O_CREATE ||| O_TRUNC then ['>'] else ['>', '>']

/-- The printer. -/
def ShCmd.print : ShCmd → List Char
  | .exec ws => [' '].intercalate ws
  | .redir c f mode _ => c.paren c.print ++ ' ' :: (redirOp mode ++ ' ' :: f)
  | .pipe l r => l.paren l.print ++ [' ', '|', ' '] ++ r.paren r.print
  | .list l r => l.paren l.print ++ [' ', ';', ' '] ++ r.paren r.print
  | .back c => c.paren c.print ++ [' ', '&']

/-- A word: a non-empty C string with no whitespace and no symbol. -/
def IsWord (w : List Char) : Prop :=
  w ≠ [] ∧ ∀ c ∈ w, c ∉ whitespace ∧ c ∉ symbols ∧ c ≠ '\x00'

/-- The modes and fds of `<`, `>` and `>>`. -/
def redirModes : List (Nat × Nat) :=
  [(O_RDONLY, 0), (O_WRONLY ||| O_CREATE ||| O_TRUNC, 1), (O_WRONLY ||| O_CREATE, 1)]

/-- The trees the printer writes for the parser: exec commands of one to
`MAXARGS - 1` words, and redirections of a known mode to a word. -/
inductive ShCmd.Wf : ShCmd → Prop
  | exec {ws : List (List Char)} : ws ≠ [] → ws.length < MAXARGS → (∀ w ∈ ws, IsWord w) → Wf (.exec ws)
  | redir {c : ShCmd} {f : List Char} {mode fd : Nat} :
      Wf c → IsWord f → (mode, fd) ∈ redirModes → Wf (.redir c f mode fd)
  | pipe {l r : ShCmd} : Wf l → Wf r → Wf (.pipe l r)
  | list {l r : ShCmd} : Wf l → Wf r → Wf (.list l r)
  | back {c : ShCmd} : Wf c → Wf (.back c)

/-! ## Tokens of a printed line -/

/-- What may follow a word: whitespace, a symbol, or the end. -/
def WordEnd (cs : List Char) : Prop := ∀ c ∈ cs.head?, c ∈ whitespace ∨ c ∈ symbols

/-- After whitespace, the line goes on with one of `toks`, or ends. -/
def Follows (toks cs : List Char) : Prop := ∀ c ∈ (skipws cs).head?, c ∈ toks

theorem skipws_of_head {cs : List Char} (h : ∀ c ∈ cs.head?, c ∉ whitespace) : skipws cs = cs := by
  cases cs with
  | nil => rfl
  | cons c r => exact List.dropWhile_cons_of_neg (by simpa [strchr] using h c rfl)

theorem skipws_cons_ws {c : Char} (cs : List Char) (h : c ∈ whitespace) : skipws (c :: cs) = skipws cs :=
  List.dropWhile_cons_of_pos (by simpa [strchr] using h)

theorem skipws_word {w : List Char} (hw : IsWord w) (cs : List Char) : skipws (w ++ cs) = w ++ cs := by
  obtain ⟨c, w', rfl⟩ := List.exists_cons_of_ne_nil hw.1
  exact skipws_of_head (by simpa using (hw.2 c List.mem_cons_self).1)

theorem IsWord.head_ne_nul {w : List Char} (hw : IsWord w) (cs : List Char) : deref (w ++ cs) ≠ '\x00' := by
  obtain ⟨c, w', rfl⟩ := List.exists_cons_of_ne_nil hw.1
  exact (hw.2 c List.mem_cons_self).2.2

theorem Follows.wordEnd {toks cs : List Char} (h : Follows toks cs) (ht : ∀ c ∈ toks, c ∈ symbols) :
    WordEnd cs := by
  cases cs with
  | nil => intro c hc; cases hc
  | cons c r =>
    intro x hx
    obtain rfl : c = x := by simpa using hx
    by_cases hw : c ∈ whitespace
    · exact .inl hw
    · have := h c (by rw [skipws_of_head (by simpa using hw)]; rfl)
      exact .inr (ht c this)

theorem Follows.mono {toks toks' cs : List Char} (h : Follows toks cs) (ht : ∀ c ∈ toks, c ∈ toks') :
    Follows toks' cs := fun c hc => ht c (h c hc)

theorem scanToken_word {w : List Char} (hw : IsWord w) {cs : List Char} (he : WordEnd cs) :
    scanToken (w ++ cs) = ('a', cs) := by
  obtain ⟨c, w', rfl⟩ := List.exists_cons_of_ne_nil hw.1
  obtain ⟨hcw, hcs, hc0⟩ := hw.2 c List.mem_cons_self
  have hdrop : (c :: w' ++ cs).dropWhile (fun c => !strchr whitespace c && !strchr symbols c) = cs := by
    rw [List.dropWhile_append_of_pos (fun x hx => by
      obtain ⟨h1, h2, -⟩ := hw.2 x hx
      simp [strchr, h1, h2])]
    cases cs with
    | nil => rfl
    | cons x r =>
      refine List.dropWhile_cons_of_neg ?_
      rcases he x rfl with h | h <;> simp [strchr, h]
  rw [List.cons_append] at hdrop
  simp only [List.cons_append, scanToken]
  split
  all_goals first
    | (exfalso; simp_all [symbols]; done)
    | rw [hdrop]

section Tokens

variable {x cs w : List Char}

theorem gettoken_congr {x' : List Char} (h : skipws x = skipws x') : gettoken x = gettoken x' := by
  simp only [gettoken, h]

theorem peek_congr {x' : List Char} (h : skipws x = skipws x') (toks : List Char) :
    peek x toks = peek x' toks := by
  simp only [peek, h]

theorem gettoken_word (hw : IsWord w) (he : WordEnd cs) (hs : skipws x = w ++ cs) :
    gettoken x = ⟨'a', w ++ cs, cs, skipws cs⟩ := by
  simp only [gettoken, hs, scanToken_word hw he]

theorem gettoken_sym {c : Char} (hs : skipws x = c :: cs) (hc : c ∈ ['|', '(', ')', ';', '&', '<']) :
    gettoken x = ⟨c, c :: cs, cs, skipws cs⟩ := by
  have : scanToken (c :: cs) = (c, cs) := by
    simp only [List.mem_cons, List.not_mem_nil, or_false] at hc
    rcases hc with rfl | rfl | rfl | rfl | rfl | rfl <;> rfl
  simp only [gettoken, hs, this]

theorem gettoken_gt (hs : skipws x = '>' :: cs) (h : deref cs ≠ '>') :
    gettoken x = ⟨'>', '>' :: cs, cs, skipws cs⟩ := by
  simp only [gettoken, hs, scanToken, h, if_false]

theorem gettoken_gtgt (hs : skipws x = '>' :: '>' :: cs) :
    gettoken x = ⟨'+', '>' :: '>' :: cs, cs, skipws cs⟩ := by
  simp only [gettoken, hs, scanToken, deref, List.headD_cons, if_true, List.tail_cons]

theorem peek_word (hw : IsWord w) (hs : skipws x = w ++ cs) {toks : List Char} (ht : ∀ c ∈ toks, c ∈ symbols) :
    peek x toks = (false, w ++ cs) := by
  obtain ⟨c, w', rfl⟩ := List.exists_cons_of_ne_nil hw.1
  have hc : c ∉ toks := fun h => (hw.2 c List.mem_cons_self).2.1 (ht c h)
  simp [peek, hs, deref, strchr, hc]

theorem peek_cons {c : Char} (hs : skipws x = c :: cs) (hc : c ≠ '\x00') (toks : List Char) :
    peek x toks = (decide (c ∈ toks), c :: cs) := by
  simp [peek, hs, deref, strchr, hc]

/-- Where the line goes on with none of `toks`, `peek` of them fails. -/
theorem peek_of_follows {toks toks' : List Char} (h : Follows toks' x) (hd : ∀ c ∈ toks', c ∉ toks) :
    peek x toks = (false, skipws x) := by
  cases hs : skipws x with
  | nil => simp [peek, hs, deref]
  | cons c r =>
    have hc : c ∉ toks := hd c (h c (by rw [hs]; rfl))
    simp [peek, hs, deref, strchr, hc]

/-- Where the line goes on with one of `toks`, `peek` of it succeeds. -/
theorem peek_of_head {c : Char} (hs : skipws x = c :: cs) {toks : List Char} (hc : c ∈ toks)
    (h0 : '\x00' ∉ toks) : peek x toks = (true, c :: cs) := by
  rw [peek_cons hs (fun e => h0 (e ▸ hc))]
  simp [hc]

end Tokens

/-! ## Where the words lie -/

/-- The word `w` lies in `line` from offset `q` to offset `eq`, and what
follows it there cannot go on a word. -/
structure WordAt (line : List Char) (q eq : Nat) (w : List Char) : Prop where
  drop : line.drop q = w ++ line.drop eq
  eq_add : eq = q + w.length
  ends : WordEnd (line.drop eq)

/-- A redirection of the command, read in `line`, is the tree's: its file
where it lies, its mode and its fd. -/
def RedirAt (line : List Char) (r : Redir) (d : List Char × Nat × Nat) : Prop :=
  WordAt line r.file r.efile d.1 ∧ r.mode = d.2.1 ∧ r.fd = d.2.2

/-- The command, read in `line`, is the tree: the same nodes, modes and fds,
each word where it lies. -/
inductive Reads (line : List Char) : Cmd → ShCmd → Prop
  | exec {argv : List (Nat × Nat)} {ws : List (List Char)} :
      List.Forall₂ (fun a w => WordAt line a.1 a.2 w) argv ws → Reads line (.exec argv) (.exec ws)
  | redir {c : Cmd} {t : ShCmd} {q eq : Nat} {f : List Char} {mode fd : Nat} :
      Reads line c t → WordAt line q eq f → Reads line (.redir c q eq mode fd) (.redir t f mode fd)
  | pipe {l r : Cmd} {tl tr : ShCmd} : Reads line l tl → Reads line r tr → Reads line (.pipe l r) (.pipe tl tr)
  | list {l r : Cmd} {tl tr : ShCmd} : Reads line l tl → Reads line r tr → Reads line (.list l r) (.list tl tr)
  | back {c : Cmd} {t : ShCmd} : Reads line c t → Reads line (.back c) (.back t)

/-- `t` in the redirections `ds` (file, mode, fd), the first innermost. -/
def ShCmd.redirs (t : ShCmd) (ds : List (List Char × Nat × Nat)) : ShCmd :=
  ds.foldl (fun t d => .redir t d.1 d.2.1 d.2.2) t

theorem Reads.redirs {line : List Char} {rs : List Redir} {ds : List (List Char × Nat × Nat)}
    (hr : List.Forall₂ (RedirAt line) rs ds) : ∀ {c : Cmd} {t : ShCmd}, Reads line c t →
      Reads line (c.redirs rs) (t.redirs ds) := by
  induction hr with
  | nil => exact id
  | cons hd _ ih =>
    intro c t h
    obtain ⟨hw, hm, hf⟩ := hd
    apply ih
    show Reads line (.redir c _ _ _ _) (.redir t _ _ _)
    rw [hm, hf]
    exact .redir h hw

/-- The redirections `ds` as the printer writes them. -/
def redirText (ds : List (List Char × Nat × Nat)) : List Char :=
  ds.flatMap fun d => ' ' :: (redirOp d.2.1 ++ ' ' :: d.1)

/-- A redirection of a known mode to a word. -/
def RedirWf (d : List Char × Nat × Nat) : Prop := IsWord d.1 ∧ (d.2.1, d.2.2) ∈ redirModes

section Line

/-! The parses of a suffix of a line that ends at `es = line.length`. -/

variable {line : List Char}

theorem drop_pos {x : List Char} (h : x <:+ line) : line.drop (pos line.length x) = x := by
  obtain ⟨pre, rfl⟩ := h
  simp [pos]

theorem wordAt_token {w cs : List Char} (he : WordEnd cs) (h : w ++ cs <:+ line) :
    WordAt line (pos line.length (w ++ cs)) (pos line.length cs) w := by
  have hcs : cs <:+ line := (List.suffix_append w cs).trans h
  have hlen := h.length_le
  simp only [List.length_append] at hlen
  refine ⟨by rw [drop_pos h, drop_pos hcs], ?_, by rw [drop_pos hcs]; exact he⟩
  simp only [pos, List.length_append]
  omega

theorem skipws_suffix {x : List Char} (h : x <:+ line) : skipws x <:+ line :=
  (List.dropWhile_suffix _).trans h

/-- The token of a redirection operator, and the redirection it makes. -/
theorem gettoken_redirOp {x y : List Char} {mode fd : Nat} (hm : (mode, fd) ∈ redirModes)
    (hs : skipws x = redirOp mode ++ ' ' :: y) :
    (gettoken x).s = skipws y ∧
      ∀ es (f : Token), redirOf es (gettoken x).ret f = [⟨pos es f.q, pos es f.eq, mode, fd⟩] := by
  have hsp : skipws (' ' :: y) = skipws y := skipws_cons_ws y (by decide)
  simp only [redirModes, List.mem_cons, Prod.mk.injEq, List.not_mem_nil, or_false] at hm
  rcases hm with ⟨rfl, rfl⟩ | ⟨rfl, rfl⟩ | ⟨rfl, rfl⟩
  · rw [gettoken_sym hs (by decide)]
    exact ⟨hsp, fun _ _ => rfl⟩
  · rw [gettoken_gt hs (by simp [deref])]
    exact ⟨hsp, fun _ _ => rfl⟩
  · rw [gettoken_gtgt hs]
    exact ⟨hsp, fun _ _ => rfl⟩

theorem skipws_redirOp (mode : Nat) (y : List Char) : skipws (redirOp mode ++ y) = redirOp mode ++ y := by
  unfold redirOp
  split_ifs <;> exact skipws_of_head (by simp [whitespace])

theorem peek_redirOp {x y : List Char} {mode : Nat} (hs : skipws x = redirOp mode ++ y) :
    peek x ['<', '>'] = (true, skipws x) := by
  rw [hs]
  unfold redirOp at hs ⊢
  split_ifs at hs ⊢ <;> exact peek_of_head hs (by decide) (by decide)

theorem wordEnd_redirText {rest : List Char} (he : WordEnd rest) (ds : List (List Char × Nat × Nat)) :
    WordEnd (redirText ds ++ rest) := by
  cases ds with
  | nil => exact he
  | cons d ds => intro c hc; simp [redirText] at hc; simp [← hc, whitespace]

/-- **The redirections the printer writes are read back**, up to what
follows them. -/
theorem redirLoop_text {rest : List Char} (hf : Follows ['|', ')', '&', ';'] rest) :
    ∀ {ds : List (List Char × Nat × Nat)} {x : List Char}, (∀ d ∈ ds, RedirWf d) → x <:+ line →
      skipws x = skipws (redirText ds ++ rest) →
      ∃ rs, unrest (redirLoop line.length x) = .ok (rs, skipws rest) ∧ List.Forall₂ (RedirAt line) rs ds
  | [], x, _, _, hs => by
    have hp : peek x ['<', '>'] = (false, skipws x) :=
      peek_of_follows (show Follows ['|', ')', '&', ';'] x from fun c hc => hf c (by simpa [hs, redirText] using hc))
        (by simp)
    exact ⟨[], by rw [redirLoop_none hp, hs]; rfl, .nil⟩
  | (f, mode, fd) :: ds, x, hd, hx, hs => by
    obtain ⟨hw, hm⟩ := hd _ List.mem_cons_self
    -- the operator, a space, the file, then the other redirections
    have hs' : skipws x = redirOp mode ++ ' ' :: (f ++ (redirText ds ++ rest)) := by
      rw [hs]
      simp only [redirText, List.flatMap_cons, List.append_assoc, List.cons_append]
      rw [skipws_cons_ws _ (by decide), skipws_redirOp]
    have hp := peek_redirOp hs'
    have hsx : skipws (skipws x) = skipws x := skipws_skipws x
    obtain ⟨htok, hredir⟩ := gettoken_redirOp hm hs'
    rw [← gettoken_congr hsx, skipws_word hw] at htok
    rw [← gettoken_congr hsx] at hredir
    have he := wordEnd_redirText (hf.wordEnd (by simp [symbols])) ds
    -- the file's token
    have hfile : gettoken (gettoken (skipws x)).s =
        ⟨'a', f ++ (redirText ds ++ rest), redirText ds ++ rest, skipws (redirText ds ++ rest)⟩ := by
      rw [htok]
      exact gettoken_word hw he (skipws_word hw _)
    have hsuf : f ++ (redirText ds ++ rest) <:+ line :=
      (show _ <:+ redirOp mode ++ ' ' :: (f ++ (redirText ds ++ rest)) from ⟨redirOp mode ++ [' '], by simp⟩).trans
        (hs' ▸ skipws_suffix hx)
    have hsuf' : redirText ds ++ rest <:+ line := (List.suffix_append _ _).trans hsuf
    obtain ⟨rs, hrs, hall⟩ := redirLoop_text hf (x := (gettoken (gettoken (skipws x)).s).s)
      (fun d h => hd d (List.mem_cons_of_mem _ h)) (by rw [hfile]; exact skipws_suffix hsuf')
      (by rw [hfile]; exact skipws_skipws _)
    obtain ⟨hle, hr⟩ := unrest_eq_ok.1 hrs
    refine ⟨_, redirLoop_some hp (by rw [hfile]) hr, ?_⟩
    rw [hredir, hfile]
    exact .cons ⟨wordAt_token he hsuf, rfl, rfl⟩ hall

/-- An exec command's words after the first, each after a space. -/
def spaced (ws : List (List Char)) : List Char := ws.flatMap (' ' :: ·)

theorem intercalate_space : ∀ (w : List Char) (ws : List (List Char)), [' '].intercalate (w :: ws) = w ++ spaced ws
  | w, [] => by simp [spaced]
  | w, w' :: ws => by
    rw [List.intercalate_cons_cons, intercalate_space w' ws]
    simp [spaced]

theorem wordEnd_spaced {rest : List Char} (he : WordEnd rest) (ws : List (List Char))
    (ds : List (List Char × Nat × Nat)) : WordEnd (spaced ws ++ (redirText ds ++ rest)) := by
  cases ws with
  | nil => exact wordEnd_redirText he ds
  | cons w ws => intro c hc; simp [spaced] at hc; simp [← hc, whitespace]

/-- The loop ends where the line goes on with `|`, `)`, `&` or `;`, or ends. -/
theorem execLoop_last {x : List Char} (hf : Follows ['|', ')', '&', ';'] x) (es : Nat) (argv : List (Nat × Nat))
    (rs : List Redir) : unrest (execLoop es argv rs x) = .ok ((argv, rs), skipws x) := by
  cases h : skipws x with
  | nil =>
    have hp : peek x ['|', ')', '&', ';'] = (false, []) := by simp [peek, h, deref]
    rw [execLoop_end hp rfl]
    rfl
  | cons c r =>
    have hc : c ∈ ['|', ')', '&', ';'] := hf c (by rw [h]; rfl)
    exact execLoop_stop (peek_of_head h hc (by decide))

/-- **The words of an exec command are read back**, with the redirections
after them, up to what follows. -/
theorem execLoop_words {ds : List (List Char × Nat × Nat)} {rest : List Char} (hds : ∀ d ∈ ds, RedirWf d)
    (hf : Follows ['|', ')', '&', ';'] rest) :
    ∀ (argv : List (Nat × Nat)) (rs : List Redir) {ws : List (List Char)} {w x : List Char},
      (∀ v ∈ w :: ws, IsWord v) → argv.length + (w :: ws).length < MAXARGS → x <:+ line →
      skipws x = w ++ (spaced ws ++ (redirText ds ++ rest)) →
      ∃ argv' rs', unrest (execLoop line.length argv rs x) = .ok ((argv ++ argv', rs ++ rs'), skipws rest) ∧
        List.Forall₂ (fun a w => WordAt line a.1 a.2 w) argv' (w :: ws) ∧ List.Forall₂ (RedirAt line) rs' ds
  | argv, rs, ws, w, x, hw, hmax, hx, hs => by
    have hw₀ : IsWord w := hw w List.mem_cons_self
    have he := wordEnd_spaced (hf.wordEnd (by simp [symbols])) ws ds
    -- the word, and what is left after it, `X`
    generalize hX : spaced ws ++ (redirText ds ++ rest) = X at hs he
    have hp : peek x ['|', ')', '&', ';'] = (false, w ++ X) := peek_word hw₀ hs (by simp [symbols])
    have htok := gettoken_word hw₀ he (skipws_word hw₀ X)
    have hsuf : w ++ X <:+ line := hs ▸ skipws_suffix hx
    have hXsuf : skipws X <:+ line := skipws_suffix ((List.suffix_append _ _).trans hsuf)
    have hword := wordAt_token he hsuf
    have hmax' : argv.length + 1 < MAXARGS := by simp at hmax; omega
    cases ws with
    | nil =>
      -- the last word: the redirections follow
      obtain ⟨rs₁, hrs, hall⟩ := redirLoop_text hf hds (x := (gettoken (w ++ X)).s)
        (by simpa only [htok] using hXsuf) (by rw [htok, skipws_skipws, ← hX]; simp [spaced])
      obtain ⟨hle, hr⟩ := unrest_eq_ok.1 hrs
      have hl := execLoop_last (x := skipws rest) (fun c hc => hf c (by rwa [skipws_skipws] at hc)) line.length
        (argv ++ [(pos line.length (gettoken (w ++ X)).q, pos line.length (gettoken (w ++ X)).eq)]) (rs ++ rs₁)
      obtain ⟨hle', hl⟩ := unrest_eq_ok.1 hl
      refine ⟨[(pos line.length (gettoken (w ++ X)).q, pos line.length (gettoken (w ++ X)).eq)], rs₁,
        (execLoop_word hp (by rw [htok]) hmax' hr hl).trans ?_, ?_, hall⟩
      · simp [skipws_skipws]
      · rw [htok]
        exact .cons hword .nil
    | cons w' ws =>
      -- another word follows, and no redirection
      have hw' : IsWord w' := hw w' (List.mem_cons_of_mem _ List.mem_cons_self)
      have hnext : skipws X = w' ++ (spaced ws ++ (redirText ds ++ rest)) := by
        rw [← hX]
        simp only [spaced, List.flatMap_cons, List.cons_append, List.append_assoc]
        rw [skipws_cons_ws _ (by decide), skipws_word hw']
      have hr : unrest (redirLoop line.length (gettoken (w ++ X)).s) = .ok ([], _) :=
        redirLoop_none (peek_word (x := (gettoken (w ++ X)).s) hw' (by rw [htok, skipws_skipws, hnext])
          (by simp [symbols]))
      obtain ⟨hle, hr⟩ := unrest_eq_ok.1 hr
      obtain ⟨argv', rs', hl, hwords, hall⟩ := execLoop_words hds hf
        (argv ++ [(pos line.length (gettoken (w ++ X)).q, pos line.length (gettoken (w ++ X)).eq)])
        (rs ++ []) (fun v hv => hw v (List.mem_cons_of_mem _ hv)) (by simp at hmax ⊢; omega)
        (by rw [← hnext]; exact hXsuf) (skipws_word hw' _)
      obtain ⟨hle', hl⟩ := unrest_eq_ok.1 hl
      refine ⟨(pos line.length (gettoken (w ++ X)).q, pos line.length (gettoken (w ++ X)).eq) :: argv', rs',
        (execLoop_word hp (by rw [htok]) hmax' hr hl).trans ?_, ?_, hall⟩
      · simp
      · rw [htok]
        exact .cons hword hwords

end Line

/-! ## Each parse reads back what the printer writes -/

section Follow

variable {toks r : List Char}

theorem Follows.skipws (h : Follows toks r) : Follows toks (skipws r) := fun c hc => h c (by rwa [skipws_skipws] at hc)

theorem follows_cons {c : Char} (hc : c ∈ toks) (hw : c ∉ whitespace) : Follows toks (c :: r) := by
  intro x hx
  rw [skipws_of_head (by simpa using hw)] at hx
  obtain rfl : c = x := by simpa using hx
  exact hc

theorem Follows.space (h : Follows toks r) : Follows toks (' ' :: r) := by
  intro x hx
  rw [skipws_cons_ws _ (by decide)] at hx
  exact h x hx

end Follow

section Levels

variable {es : Nat} {x rest : List Char} {c : Cmd}

/-- Where the line goes on with `)`, `&` or `;`, a command is a whole pipeline. -/
theorem parsepipe_of_exec (hf : Follows [')', '&', ';'] rest)
    (he : unrest (parseexec es x) = .ok (c, skipws rest)) : unrest (parsepipe es x) = .ok (c, skipws rest) := by
  obtain ⟨_, he⟩ := unrest_eq_ok.1 he
  simpa [skipws_skipws] using parsepipe_exec he (peek_of_follows hf.skipws (by simp))

/-- Where the line goes on with `)`, a pipeline is a whole line. -/
theorem parseline_of_pipe (hf : Follows [')'] rest)
    (hp : unrest (parsepipe es x) = .ok (c, skipws rest)) : unrest (parseline es x) = .ok (c, skipws rest) := by
  obtain ⟨_, hp⟩ := unrest_eq_ok.1 hp
  have hamp : peek (skipws rest) ['&'] = (false, skipws (skipws rest)) := peek_of_follows hf.skipws (by simp)
  obtain ⟨hb₁, hb₂⟩ := backLoop_none c hamp
  have hs : peek (skipws (skipws rest)) [';'] = (false, skipws (skipws (skipws rest))) :=
    peek_of_follows hf.skipws.skipws (by simp)
  rw [← hb₂] at hs
  simpa [hb₁, hb₂, skipws_skipws] using parseline_pipe hp hs

end Levels

section Line

variable {line : List Char}

/-- What `parseexec` reads back: a sub-command as the printer writes it, with
the redirections after it. -/
def ExecReads (line : List Char) (t : ShCmd) : Prop :=
  ∀ {ds : List (List Char × Nat × Nat)} {rest x : List Char}, (∀ d ∈ ds, RedirWf d) →
    Follows ['|', ')', '&', ';'] rest → x <:+ line → skipws x = skipws (t.paren t.print ++ (redirText ds ++ rest)) →
    ∃ c, unrest (parseexec line.length x) = .ok (c, skipws rest) ∧ Reads line c (t.redirs ds)

/-- What `parseline` reads back: a command as the printer writes it. -/
def LineReads (line : List Char) (t : ShCmd) : Prop :=
  ∀ {rest x : List Char}, Follows [')'] rest → x <:+ line → skipws x = skipws (t.print ++ rest) →
    ∃ c, unrest (parseline line.length x) = .ok (c, skipws rest) ∧ Reads line c t

/-- A sub-command as an operand of `|` is read back by `parsepipe`. -/
theorem ExecReads.toPipe {t : ShCmd} (h : ExecReads line t) {rest x : List Char} (hf : Follows [')', '&', ';'] rest)
    (hx : x <:+ line) (hs : skipws x = skipws (t.paren t.print ++ rest)) :
    ∃ c, unrest (parsepipe line.length x) = .ok (c, skipws rest) ∧ Reads line c t := by
  obtain ⟨c, he, hc⟩ := h (by simp : ∀ d ∈ ([] : List (List Char × Nat × Nat)), RedirWf d) (hf.mono (by simp)) hx
    (by simpa [redirText] using hs)
  exact ⟨c, parsepipe_of_exec hf he, hc⟩

/-- A sub-command as an operand of `;` is read back by `parseline`. -/
theorem ExecReads.toLine {t : ShCmd} (h : ExecReads line t) {rest x : List Char} (hf : Follows [')'] rest)
    (hx : x <:+ line) (hs : skipws x = skipws (t.paren t.print ++ rest)) :
    ∃ c, unrest (parseline line.length x) = .ok (c, skipws rest) ∧ Reads line c t := by
  obtain ⟨c, hp, hc⟩ := h.toPipe (hf.mono (by simp)) hx hs
  exact ⟨c, parseline_of_pipe hf hp, hc⟩

theorem suffix_of_skipws {x a b : List Char} (hx : x <:+ line) (h : skipws x = a ++ b) : b <:+ line :=
  (List.suffix_append a b).trans (h ▸ skipws_suffix hx)

/-- An exec command is read back by `parseexec`, words and redirections. -/
theorem execReads_exec {ws : List (List Char)} (hne : ws ≠ []) (hmax : ws.length < MAXARGS)
    (hw : ∀ w ∈ ws, IsWord w) : ExecReads line (.exec ws) := by
  intro ds rest x hds hf hx hs
  obtain ⟨w, ws', rfl⟩ := List.exists_cons_of_ne_nil hne
  have hw₀ := hw w List.mem_cons_self
  have hs' : skipws x = w ++ (spaced ws' ++ (redirText ds ++ rest)) := by
    rw [hs]
    simp only [ShCmd.paren, ShCmd.isExec, if_true, ShCmd.print, intercalate_space, List.append_assoc]
    exact skipws_word hw₀ _
  have hsuf := suffix_of_skipws (a := []) hx hs'
  -- no `(`, and no redirection before the first word
  have hpar : peek x ['('] = (false, w ++ (spaced ws' ++ (redirText ds ++ rest))) :=
    peek_word hw₀ hs' (by simp [symbols])
  have hred : unrest (redirLoop line.length (w ++ (spaced ws' ++ (redirText ds ++ rest)))) =
      .ok ([], w ++ (spaced ws' ++ (redirText ds ++ rest))) :=
    redirLoop_none (peek_word hw₀ (skipws_word hw₀ _) (by simp [symbols]))
  obtain ⟨_, hred⟩ := unrest_eq_ok.1 hred
  obtain ⟨argv, rs, hl, hwords, hall⟩ := execLoop_words hds hf [] [] hw (by simpa using hmax) hsuf
    (skipws_word hw₀ _)
  obtain ⟨_, hl⟩ := unrest_eq_ok.1 hl
  exact ⟨_, parseexec_exec hpar hred hl, Reads.redirs (by simpa using hall) (.exec (by simpa using hwords))⟩

/-- A command in parentheses is read back by `parseexec`, through
`parseblock`, where the command itself is read back by `parseline`. -/
theorem ExecReads.of_line {t : ShCmd} (hne : t.isExec = false) (h : LineReads line t) : ExecReads line t := by
  intro ds rest x hds hf hx hs
  have hs' : skipws x = '(' :: (t.print ++ ')' :: (redirText ds ++ rest)) := by
    rw [hs]
    simp only [ShCmd.paren, hne, Bool.false_eq_true, if_false, List.cons_append, List.append_assoc]
    exact skipws_of_head (by simp [whitespace])
  have hsx : skipws (skipws x) = '(' :: (t.print ++ ')' :: (redirText ds ++ rest)) := by rw [skipws_skipws, hs']
  have hpar : peek x ['('] = (true, skipws x) := by
    rw [peek_of_head hs' (by simp) (by simp), hs']
  have hpar' : peek (skipws x) ['('] = (true, skipws x) := by
    rw [peek_of_head hsx (by simp) (by simp), hs']
  -- the command between the parentheses
  have hopen := gettoken_sym hsx (by simp)
  have hclose : Follows [')'] (')' :: (redirText ds ++ rest)) := follows_cons (by simp) (by simp [whitespace])
  obtain ⟨c, hl, hc⟩ := h (x := (gettoken (skipws x)).s) hclose
    (by rw [hopen]; exact skipws_suffix (suffix_of_skipws (a := ['(']) hx hs'))
    (by rw [hopen, skipws_skipws])
  obtain ⟨_, hl⟩ := unrest_eq_ok.1 hl
  have hrp₀ : skipws (')' :: (redirText ds ++ rest)) = ')' :: (redirText ds ++ rest) :=
    skipws_of_head (by simp [whitespace])
  have hrp : skipws (skipws (')' :: (redirText ds ++ rest))) = ')' :: (redirText ds ++ rest) := by
    rw [skipws_skipws, hrp₀]
  have hpeek : peek (skipws (')' :: (redirText ds ++ rest))) [')'] = (true, skipws (')' :: (redirText ds ++ rest))) := by
    rw [peek_of_head hrp (by simp) (by simp), hrp₀]
  -- the redirections after it
  have hshut := gettoken_sym hrp (by simp)
  have hZ : (gettoken (skipws (')' :: (redirText ds ++ rest)))).s <:+ line := by
    rw [hshut]
    exact skipws_suffix (suffix_of_skipws (a := '(' :: t.print ++ [')']) (b := redirText ds ++ rest) hx (by simp [hs']))
  obtain ⟨rs, hr, hall⟩ := redirLoop_text hf hds hZ (by rw [hshut, skipws_skipws])
  obtain ⟨_, hr⟩ := unrest_eq_ok.1 hr
  have hb := parseblock_eq hpar' hl hpeek hr
  obtain ⟨_, hb⟩ := unrest_eq_ok.1 hb
  exact ⟨_, parseexec_block hpar hb, hc.redirs hall⟩

/-- A printed sub-command starts with `(` or a word. -/
theorem skipws_paren {t : ShCmd} (ht : t.Wf) (y : List Char) : skipws (t.paren t.print ++ y) = t.paren t.print ++ y := by
  cases ht
  case exec hne _ hw =>
    obtain ⟨w, ws, rfl⟩ := List.exists_cons_of_ne_nil hne
    simp only [ShCmd.paren, ShCmd.isExec, if_true, ShCmd.print, intercalate_space, List.append_assoc]
    exact skipws_word (hw w List.mem_cons_self) _
  all_goals exact skipws_of_head (by simp [ShCmd.paren, ShCmd.isExec, whitespace])

theorem ExecReads.lineReads_exec {ws : List (List Char)} (h : ExecReads line (.exec ws)) :
    LineReads line (.exec ws) :=
  fun hf hx hs => h.toLine hf hx (by simpa [ShCmd.paren, ShCmd.isExec] using hs)

/-- A command with a redirection is read back by `parseexec`. -/
theorem lineReads_redir {c : ShCmd} {f : List Char} {mode fd : Nat} (hc : ExecReads line c) (hw : IsWord f)
    (hm : (mode, fd) ∈ redirModes) : LineReads line (.redir c f mode fd) := by
  intro rest x hf hx hs
  obtain ⟨cmd, he, hr⟩ := hc (show ∀ d ∈ [(f, mode, fd)], RedirWf d by simpa [RedirWf] using ⟨hw, hm⟩)
    (hf.mono (by simp)) hx (by simpa [ShCmd.print, redirText] using hs)
  exact ⟨cmd, parseline_of_pipe hf (parsepipe_of_exec (hf.mono (by simp)) he), hr⟩

/-- The operator after the first operand, past the space before it. -/
theorem skipws_op (op : Char) (R : List Char) (hop : op ∉ whitespace) :
    skipws (' ' :: op :: ' ' :: R) = op :: ' ' :: R := by
  rw [skipws_cons_ws _ (by decide)]
  exact skipws_of_head (by simpa using hop)

/-- A pipe is read back by `parsepipe`: `parseexec` reads the left operand
up to the `|`, and `parsepipe` the right. -/
theorem lineReads_pipe {l r : ShCmd} (hwl : l.Wf) (hl : ExecReads line l) (hr : ExecReads line r) :
    LineReads line (.pipe l r) := by
  intro rest x hf hx hs
  have hs' : skipws x = l.paren l.print ++ ' ' :: '|' :: ' ' :: (r.paren r.print ++ rest) := by
    rw [hs, ← skipws_paren hwl]
    simp [ShCmd.print]
  have hsk := skipws_op '|' (r.paren r.print ++ rest) (by decide)
  obtain ⟨cl, he, hcl⟩ := hl (show ∀ d ∈ ([] : List (List Char × Nat × Nat)), RedirWf d by simp)
    (show Follows ['|', ')', '&', ';'] (' ' :: '|' :: ' ' :: (r.paren r.print ++ rest)) from
      fun c hc => by simp [hsk] at hc; simp [← hc]) hx (by simpa [redirText, skipws_paren hwl] using hs')
  obtain ⟨_, he⟩ := unrest_eq_ok.1 he
  have hsk' : skipws (skipws (' ' :: '|' :: ' ' :: (r.paren r.print ++ rest))) = '|' :: ' ' :: (r.paren r.print ++ rest) := by
    rw [skipws_skipws, hsk]
  have hbar : peek (skipws (' ' :: '|' :: ' ' :: (r.paren r.print ++ rest))) ['|'] =
      (true, skipws (' ' :: '|' :: ' ' :: (r.paren r.print ++ rest))) := by
    rw [peek_of_head hsk' (by simp) (by simp), hsk]
  have hgt := gettoken_sym hsk' (by simp)
  have hR : (gettoken (skipws (' ' :: '|' :: ' ' :: (r.paren r.print ++ rest)))).s <:+ line := by
    rw [hgt]
    exact skipws_suffix (suffix_of_skipws (a := l.paren l.print ++ [' ', '|']) hx (by simp [hs']))
  obtain ⟨cr, hp, hcr⟩ := hr.toPipe (hf.mono (by simp)) hR
    (by rw [hgt, skipws_skipws, skipws_cons_ws _ (by decide)])
  obtain ⟨_, hp⟩ := unrest_eq_ok.1 hp
  exact ⟨_, parseline_of_pipe hf (parsepipe_pipe he hbar hp), .pipe hcl hcr⟩

/-- A list is read back by `parseline`: `parsepipe` reads the left operand
up to the `;`, and `parseline` the right. -/
theorem lineReads_list {l r : ShCmd} (hwl : l.Wf) (hl : ExecReads line l) (hr : ExecReads line r) :
    LineReads line (.list l r) := by
  intro rest x hf hx hs
  have hs' : skipws x = l.paren l.print ++ ' ' :: ';' :: ' ' :: (r.paren r.print ++ rest) := by
    rw [hs, ← skipws_paren hwl]
    simp [ShCmd.print]
  have hsk := skipws_op ';' (r.paren r.print ++ rest) (by decide)
  obtain ⟨cl, hp, hcl⟩ := hl.toPipe
    (show Follows [')', '&', ';'] (' ' :: ';' :: ' ' :: (r.paren r.print ++ rest)) from
      fun c hc => by simp [hsk] at hc; simp [← hc]) hx (by rw [hs', skipws_paren hwl])
  obtain ⟨_, hp⟩ := unrest_eq_ok.1 hp
  have hsk' : skipws (skipws (' ' :: ';' :: ' ' :: (r.paren r.print ++ rest))) = ';' :: ' ' :: (r.paren r.print ++ rest) := by
    rw [skipws_skipws, hsk]
  -- no `&` before the `;`
  have hamp : peek (skipws (' ' :: ';' :: ' ' :: (r.paren r.print ++ rest))) ['&'] =
      (false, ';' :: ' ' :: (r.paren r.print ++ rest)) := by
    rw [peek_cons hsk' (by decide)]
    simp
  obtain ⟨hb₁, hb₂⟩ := backLoop_none cl hamp
  have hsemi : peek (backLoop cl (skipws (' ' :: ';' :: ' ' :: (r.paren r.print ++ rest)))).2.1 [';'] =
      (true, ';' :: ' ' :: (r.paren r.print ++ rest)) := by
    rw [hb₂]
    exact peek_of_head (skipws_of_head (by simp [whitespace])) (by simp) (by simp)
  have hgt := gettoken_sym (x := ';' :: ' ' :: (r.paren r.print ++ rest)) (skipws_of_head (by simp [whitespace]))
    (by simp)
  have hR : (gettoken (';' :: ' ' :: (r.paren r.print ++ rest))).s <:+ line := by
    rw [hgt]
    exact skipws_suffix (suffix_of_skipws (a := l.paren l.print ++ [' ', ';']) hx (by simp [hs']))
  obtain ⟨cr, hl', hcr⟩ := hr.toLine hf hR (by rw [hgt, skipws_skipws, skipws_cons_ws _ (by decide)])
  obtain ⟨_, hl'⟩ := unrest_eq_ok.1 hl'
  have := parseline_list hp hsemi hl'
  rw [hb₁] at this
  exact ⟨_, this, .list hcl hcr⟩

/-- A background command is read back by `parseline`: `parsepipe` reads the
command up to the `&`, and the loop of `parseline` the `&`. -/
theorem lineReads_back {c : ShCmd} (hwc : c.Wf) (hc : ExecReads line c) : LineReads line (.back c) := by
  intro rest x hf hx hs
  have hs' : skipws x = c.paren c.print ++ ' ' :: '&' :: rest := by
    rw [hs, ← skipws_paren hwc]
    simp [ShCmd.print]
  have hsk : skipws (' ' :: '&' :: rest) = '&' :: rest := by
    rw [skipws_cons_ws _ (by decide)]
    exact skipws_of_head (by simp [whitespace])
  obtain ⟨cc, hp, hcc⟩ := hc.toPipe
    (show Follows [')', '&', ';'] (' ' :: '&' :: rest) from fun c hc => by simp [hsk] at hc; simp [← hc]) hx
    (by rw [hs', skipws_paren hwc])
  obtain ⟨_, hp⟩ := unrest_eq_ok.1 hp
  have hamp : peek (skipws (' ' :: '&' :: rest)) ['&'] = (true, '&' :: rest) :=
    peek_of_head (by rw [skipws_skipws, hsk]) (by simp) (by simp)
  obtain ⟨hb₁, hb₂⟩ := backLoop_back cc hamp
  have hgt := gettoken_sym (x := '&' :: rest) (skipws_of_head (by simp [whitespace])) (by simp)
  have hnone : peek (gettoken ('&' :: rest)).s ['&'] = (false, skipws (skipws rest)) := by
    rw [hgt]
    exact peek_of_follows hf.skipws (by simp)
  obtain ⟨hb₃, hb₄⟩ := backLoop_none (.back cc) hnone
  have hsemi : peek (backLoop cc (skipws (' ' :: '&' :: rest))).2.1 [';'] = (false, skipws (skipws (skipws rest))) := by
    rw [hb₂, hb₄]
    exact peek_of_follows hf.skipws.skipws (by simp)
  have := parseline_pipe hp hsemi
  rw [hb₁, hb₃] at this
  exact ⟨_, by simpa [skipws_skipws] using this, .back hcc⟩

/-- **Every well-formed command is read back**, by `parseexec` in
parentheses or as an exec command, and by `parseline` as printed. -/
theorem reads_of_wf {t : ShCmd} (ht : t.Wf) : ExecReads line t ∧ LineReads line t := by
  induction ht with
  | exec hne hmax hw =>
    have h : ExecReads line (.exec _) := execReads_exec hne hmax hw
    exact ⟨h, h.lineReads_exec⟩
  | redir _ hw hm ih =>
    have h : LineReads line (.redir _ _ _ _) := lineReads_redir ih.1 hw hm
    exact ⟨ExecReads.of_line rfl h, h⟩
  | pipe hwl _ ihl ihr =>
    have h : LineReads line (.pipe _ _) := lineReads_pipe hwl ihl.1 ihr.1
    exact ⟨ExecReads.of_line rfl h, h⟩
  | list hwl _ ihl ihr =>
    have h : LineReads line (.list _ _) := lineReads_list hwl ihl.1 ihr.1
    exact ⟨ExecReads.of_line rfl h, h⟩
  | back hwc ih =>
    have h : LineReads line (.back _) := lineReads_back hwc ih.1
    exact ⟨ExecReads.of_line rfl h, h⟩

end Line

/-! ## The tree in memory after `nulterminate` -/

/-- The C string at offset `p` of `m`: its characters up to the first NUL. -/
def cstr (m : List Char) (p : Nat) : List Char := (m.drop p).takeWhile (· ≠ '\x00')

/-- The tree a parsed command stands for in memory `m`, each argument and
file name read as the C string its pointer points at. -/
def Cmd.view (m : List Char) : Cmd → ShCmd
  | .exec argv => .exec (argv.map fun a => cstr m a.1)
  | .redir cmd file _ mode fd => .redir (cmd.view m) (cstr m file) mode fd
  | .pipe left right => .pipe (left.view m) (right.view m)
  | .list left right => .list (left.view m) (right.view m)
  | .back cmd => .back (cmd.view m)

/-- The offsets `nulterminate` writes a NUL at: the ends of the words. -/
def Cmd.ends : Cmd → List Nat
  | .exec argv => argv.map Prod.snd
  | .redir cmd _ efile _ _ => cmd.ends ++ [efile]
  | .pipe left right => left.ends ++ right.ends
  | .list left right => left.ends ++ right.ends
  | .back cmd => cmd.ends

section Nul

/-- A NUL written where `b` holds, then where `a` holds. -/
theorem nul_comp (a b : Prop) [Decidable a] [Decidable b] :
    ((fun x : Char => if a then '\x00' else x) ∘ fun x => if b then '\x00' else x) =
      fun x => if b ∨ a then '\x00' else x := by
  funext x
  by_cases a <;> by_cases b <;> simp [*]

theorem getElem?_set_nul (m : List Char) (p i : Nat) :
    (m.set p '\x00')[i]? = m[i]?.map fun x => if i = p then '\x00' else x := by
  rw [List.getElem?_set]
  by_cases h : p = i
  · subst h
    by_cases hl : p < m.length <;> simp [hl]
  · simp [h, Ne.symm h]

theorem map_nul_congr {a b : Prop} [Decidable a] [Decidable b] (h : a ↔ b) (o : Option Char) :
    o.map (fun x => if a then '\x00' else x) = o.map fun x => if b then '\x00' else x := by
  congr 1
  funext x
  exact if_congr h rfl rfl

theorem getElem?_foldl_set (argv : List (Nat × Nat)) (m : List Char) (i : Nat) :
    (argv.foldl (fun m a => m.set a.2 '\x00') m)[i]? =
      m[i]?.map fun x => if i ∈ argv.map Prod.snd then '\x00' else x := by
  induction argv generalizing m with
  | nil => simp
  | cons a argv ih =>
    rw [List.foldl_cons, ih, getElem?_set_nul, Option.map_map, nul_comp]
    exact map_nul_congr (by simp) _

/-- `nulterminate` writes a NUL at each end of the command and nowhere else. -/
theorem getElem?_nulterminate (cmd : Cmd) (m : List Char) (i : Nat) :
    (nulterminate cmd m)[i]? = m[i]?.map fun x => if i ∈ cmd.ends then '\x00' else x := by
  induction cmd generalizing m with
  | exec argv => exact getElem?_foldl_set argv m i
  | redir cmd _ efile _ _ ih =>
    rw [nulterminate, getElem?_set_nul, ih, Option.map_map, nul_comp]
    exact map_nul_congr (by simp [Cmd.ends]) _
  | pipe l r ihl ihr =>
    rw [nulterminate, ihr, ihl, Option.map_map, nul_comp]
    exact map_nul_congr (by simp [Cmd.ends]) _
  | list l r ihl ihr =>
    rw [nulterminate, ihr, ihl, Option.map_map, nul_comp]
    exact map_nul_congr (by simp [Cmd.ends]) _
  | back cmd ih => exact ih m

end Nul

section Memory

variable {line : List Char}

theorem WordAt.le_length {q eq : Nat} {w : List Char} (hw : w ≠ []) (h : WordAt line q eq w) :
    eq ≤ line.length := by
  have hl := congrArg List.length h.drop
  have hw' := List.length_pos_iff.2 hw
  simp only [List.length_drop, List.length_append] at hl
  rw [h.eq_add]
  omega

theorem WordAt.head?_drop {q eq : Nat} {w : List Char} (h : WordAt line q eq w) {k : Nat} (hk : k < w.length) :
    (line.drop (q + k)).head? = some w[k] := by
  rw [List.head?_drop, ← List.getElem?_drop, h.drop, List.getElem?_append_left hk, List.getElem?_eq_getElem hk]

/-- No end of a word lies inside another. -/
theorem WordAt.not_mem {q eq : Nat} {w : List Char} {E : List Nat} (hw : IsWord w) (h : WordAt line q eq w)
    (he : ∀ e ∈ E, WordEnd (line.drop e)) {k : Nat} (hk : k < w.length) : q + k ∉ E := by
  intro hm
  have hend := he _ hm w[k] (h.head?_drop hk)
  have hc := hw.2 w[k] (List.getElem_mem hk)
  tauto

/-- After `nulterminate`, the C string at a word is the word. -/
theorem cstr_nulterminate {cmd : Cmd} {q eq : Nat} {w : List Char} (hw : IsWord w) (h : WordAt line q eq w)
    (he : ∀ e ∈ cmd.ends, WordEnd (line.drop e)) (hq : eq ∈ cmd.ends) :
    cstr (nulterminate cmd (line ++ ['\x00'])) q = w := by
  have hle := h.le_length hw.1
  have htake : ((nulterminate cmd (line ++ ['\x00'])).drop q).take (w.length + 1) = w ++ ['\x00'] := by
    apply List.ext_getElem?
    intro k
    rw [List.getElem?_take, List.getElem?_drop, getElem?_nulterminate]
    rcases Nat.lt_trichotomy k w.length with hk | rfl | hk
    · -- inside the word, which no end touches
      have hlt : q + k < line.length := by rw [h.eq_add] at hle; omega
      rw [if_pos (by omega), List.getElem?_append_left hlt, ← List.head?_drop, h.head?_drop hk,
        List.getElem?_append_left hk, List.getElem?_eq_getElem hk]
      simp [h.not_mem hw he hk]
    · -- the word's end, where the NUL is written
      rw [if_pos (by omega), ← h.eq_add]
      rcases Nat.lt_or_ge eq line.length with hlt | hge
      · simp [List.getElem?_append_left hlt, List.getElem?_eq_getElem hlt, hq]
      · -- the line's own NUL
        simp [show eq = line.length by omega]
    · rw [if_neg (by omega)]
      exact (List.getElem?_eq_none (by simp; omega)).symm
  rw [cstr, ← List.take_append_drop (w.length + 1) ((nulterminate cmd (line ++ ['\x00'])).drop q), htake,
    List.append_assoc, List.takeWhile_append_of_pos (fun c hc => by simpa using (hw.2 c hc).2.2)]
  simp

theorem forall₂_ends {argv : List (Nat × Nat)} {ws : List (List Char)}
    (h : List.Forall₂ (fun a w => WordAt line a.1 a.2 w) argv ws) : ∀ a ∈ argv, WordEnd (line.drop a.2) := by
  induction h with
  | nil => simp
  | cons hd _ ih => simpa [hd.ends] using ih

/-- Every end of a command read in `line` ends a word there. -/
theorem Reads.ends {cmd : Cmd} {t : ShCmd} (h : Reads line cmd t) : ∀ e ∈ cmd.ends, WordEnd (line.drop e) := by
  induction h with
  | exec ha =>
    intro e he
    obtain ⟨a, ha', rfl⟩ := List.mem_map.1 he
    exact forall₂_ends ha a ha'
  | redir _ hf ih =>
    intro e he
    rcases List.mem_append.1 he with he | he
    · exact ih e he
    · rw [List.mem_singleton.1 he]
      exact hf.ends
  | pipe _ _ ihl ihr =>
    intro e he
    rcases List.mem_append.1 he with he | he
    exacts [ihl e he, ihr e he]
  | list _ _ ihl ihr =>
    intro e he
    rcases List.mem_append.1 he with he | he
    exacts [ihl e he, ihr e he]
  | back _ ih => exact ih

section View

variable {m : List Char}

theorem map_cstr {argv : List (Nat × Nat)} {ws : List (List Char)}
    (ha : List.Forall₂ (fun a w => WordAt line a.1 a.2 w) argv ws) (hw : ∀ w ∈ ws, IsWord w)
    (hm : ∀ {q eq w}, IsWord w → WordAt line q eq w → eq ∈ argv.map Prod.snd → cstr m q = w) :
    argv.map (fun a => cstr m a.1) = ws := by
  induction ha with
  | nil => rfl
  | cons hd _ ih =>
    rw [List.map_cons, hm (hw _ List.mem_cons_self) hd (by simp),
      ih (fun w hw' => hw w (List.mem_cons_of_mem _ hw'))
        (fun hw' ha' he => hm hw' ha' (by rw [List.map_cons]; exact List.mem_cons_of_mem _ he))]

/-- In a memory where the C string at each word is the word, a command read
in `line` stands for its tree. -/
theorem Reads.view {cmd : Cmd} {t : ShCmd} (h : Reads line cmd t) (ht : t.Wf)
    (hm : ∀ {q eq w}, IsWord w → WordAt line q eq w → eq ∈ cmd.ends → cstr m q = w) : cmd.view m = t := by
  induction h with
  | exec ha =>
    cases ht with
    | exec _ _ hw => rw [Cmd.view, map_cstr ha hw hm]
  | redir _ hf ih =>
    cases ht with
    | redir hc hw _ =>
      rw [Cmd.view, ih hc (fun hw' ha he => hm hw' ha (by simp [Cmd.ends, he])), hm hw hf (by simp [Cmd.ends])]
  | pipe _ _ ihl ihr =>
    cases ht with
    | pipe hl hr =>
      rw [Cmd.view, ihl hl (fun hw ha he => hm hw ha (by simp [Cmd.ends, he])),
        ihr hr (fun hw ha he => hm hw ha (by simp [Cmd.ends, he]))]
  | list _ _ ihl ihr =>
    cases ht with
    | list hl hr =>
      rw [Cmd.view, ihl hl (fun hw ha he => hm hw ha (by simp [Cmd.ends, he])),
        ihr hr (fun hw ha he => hm hw ha (by simp [Cmd.ends, he]))]
  | back _ ih =>
    cases ht with
    | back hc => rw [Cmd.view, ih hc hm]

end View

/-- After `nulterminate`, a command read in `line` stands for its tree. -/
theorem view_nulterminate {cmd : Cmd} {t : ShCmd} (h : Reads line cmd t) (ht : t.Wf) :
    cmd.view (nulterminate cmd (line ++ ['\x00'])) = t :=
  h.view ht fun hw ha he => cstr_nulterminate hw ha h.ends he

end Memory

/-! ## The round trip -/

theorem IsWord.nul_not_mem {w : List Char} (hw : IsWord w) : '\x00' ∉ w :=
  fun h => (hw.2 _ h).2.2 rfl

theorem ShCmd.nul_not_mem_paren (t : ShCmd) {s : List Char} (h : '\x00' ∉ s) : '\x00' ∉ t.paren s := by
  unfold ShCmd.paren
  split <;> simp [h]

theorem nul_not_mem_redirOp (mode : Nat) : '\x00' ∉ redirOp mode := by
  unfold redirOp
  split_ifs <;> simp

/-- The printer writes no NUL: the printed line is one C string. -/
theorem ShCmd.Wf.nul_not_mem {t : ShCmd} (ht : t.Wf) : '\x00' ∉ t.print := by
  induction ht with
  | exec hne _ hw =>
    obtain ⟨w, ws, rfl⟩ := List.exists_cons_of_ne_nil hne
    rw [ShCmd.print, intercalate_space]
    simp only [spaced, List.mem_append, List.mem_flatMap, List.mem_cons, not_or, not_exists, not_and]
    exact ⟨(hw w List.mem_cons_self).nul_not_mem, fun a ha =>
      ⟨by decide, (hw a (List.mem_cons_of_mem _ ha)).nul_not_mem⟩⟩
  | @redir c _ mode _ _ hf _ ih =>
    simp [ShCmd.print, c.nul_not_mem_paren ih, nul_not_mem_redirOp mode, hf.nul_not_mem]
  | @pipe l r _ _ ihl ihr => simp [ShCmd.print, l.nul_not_mem_paren ihl, r.nul_not_mem_paren ihr]
  | @list l r _ _ ihl ihr => simp [ShCmd.print, l.nul_not_mem_paren ihl, r.nul_not_mem_paren ihr]
  | @back c _ ih => simp [ShCmd.print, c.nul_not_mem_paren ih]

/-- `parsecmd` of a buffer whose C string `parseline` reads to its end. -/
theorem parsecmd_of_line {buf line : List Char} {cmd : Cmd} {r : Rest line}
    (hb : buf.takeWhile (· ≠ '\x00') = line) (hl : parseline line.length line = .ok (cmd, r))
    (hs : skipws r.1 = []) : parsecmd buf = .ok (cmd, nulterminate cmd buf) := by
  subst hb
  exact parsecmd_eq hl hs

/-- **The shell's parse round trip.** For every well-formed tree, `parsecmd`
of its printed line succeeds, and the command it returns, its words read
as C strings in the buffer `nulterminate` leaves, is the tree. -/
theorem parsecmd_print (t : ShCmd) (ht : t.Wf) :
    ∃ cmd m, parsecmd (t.print ++ ['\x00']) = .ok (cmd, m) ∧ cmd.view m = t := by
  have hb : (t.print ++ ['\x00']).takeWhile (· ≠ '\x00') = t.print := by
    rw [List.takeWhile_append_of_pos (fun c hc => by simpa using ne_of_mem_of_not_mem hc ht.nul_not_mem)]
    simp
  obtain ⟨cmd, hp, hr⟩ := (reads_of_wf ht).2 (show Follows [')'] [] by simp [Follows, skipws])
    (List.suffix_refl t.print) (by simp)
  obtain ⟨_, hp⟩ := unrest_eq_ok.1 hp
  exact ⟨cmd, _, parsecmd_of_line hb hp (by simp [skipws]), view_nulterminate hr ht⟩

theorem parsecmd_print_ls_wc :
    (ShCmd.pipe (.exec [['l', 's']]) (.redir (.exec [['w', 'c']]) ['o'] (O_WRONLY ||| O_CREATE ||| O_TRUNC) 1)).Wf ∧
      ∃ cmd m, parsecmd ((ShCmd.pipe (.exec [['l', 's']])
          (.redir (.exec [['w', 'c']]) ['o'] (O_WRONLY ||| O_CREATE ||| O_TRUNC) 1)).print ++ ['\x00']) = .ok (cmd, m) ∧
        cmd.view m = .pipe (.exec [['l', 's']]) (.redir (.exec [['w', 'c']]) ['o'] (O_WRONLY ||| O_CREATE ||| O_TRUNC) 1) := by
  have hls : IsWord ['l', 's'] := by simp [IsWord, whitespace, symbols]
  have hwc : IsWord ['w', 'c'] := by simp [IsWord, whitespace, symbols]
  have ho : IsWord ['o'] := by simp [IsWord, whitespace, symbols]
  have ht : (ShCmd.pipe (.exec [['l', 's']])
      (.redir (.exec [['w', 'c']]) ['o'] (O_WRONLY ||| O_CREATE ||| O_TRUNC) 1)).Wf :=
    .pipe (.exec (by simp) (by decide) (by simpa using hls))
      (.redir (.exec (by simp) (by decide) (by simpa using hwc)) ho (by simp [redirModes]))
  exact ⟨ht, parsecmd_print _ ht⟩

end Xv6
