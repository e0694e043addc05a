import Mathlib

/-!
# The shell's command parser

`user/sh.c`: `parsecmd` reads a command line into a tree of `struct cmd`s
(`Cmd`) by recursive descent — `parseline` for `;` and `&`, `parsepipe` for
`|`, `parseexec` for words and `parseblock` for `( … )`, with
`parseredirs` reading the redirections after each — over the tokens of
`gettoken`, with one character of lookahead from `peek`. The tree points
into the line: each word is the pair `argv[i]`, `eargv[i]` of pointers to
where it starts and ends, and `nulterminate` then writes a NUL at each end,
in the line itself, so that the words become C strings.

The pointer `s` into the line is the list of characters from `s` to `es`
(reading NUL at `es`, as `*s` does), and a pointer stored in the tree is its
offset `es - s` from the start. Each parse returns how much of the line is
left (`Rest`): never more than it was given, and less after a token, which
is what makes the recursion well founded.
-/

namespace Xv6

/-- Most words of an exec command, and its terminating null. -/
def MAXARGS : Nat := 10

/-- The open modes of `kernel/fcntl.h`. -/
def O_RDONLY : Nat := 0x000
def O_WRONLY : Nat := 0x001
def O_CREATE : Nat := 0x200
def O_TRUNC : Nat := 0x400

/-- `struct cmd` of each kind, with the pointers into the line as offsets:
`argv[i]` and `eargv[i]` up to the null `argv[argc]`, and `file` and `efile`. -/
inductive Cmd
  | exec (argv : List (Nat × Nat))
  | redir (cmd : Cmd) (file efile : Nat) (mode fd : Nat)
  | pipe (left right : Cmd)
  | list (left right : Cmd)
  | back (cmd : Cmd)
deriving Repr, DecidableEq

def whitespace : List Char := [' ', '\t', '\r', '\n', '\x0b']
def symbols : List Char := ['<', '|', '>', '&', ';', '(', ')']

/-- `strchr(str, c) != 0` (`user/ulib.c`): `c` is one of the characters of
`str` before its NUL. -/
def strchr (str : List Char) (c : Char) : Bool := decide (c ∈ str)

/-- `*s`: the NUL terminator at `es`. -/
def deref (cs : List Char) : Char := cs.headD '\x00'

/-- `while(s < es && strchr(whitespace, *s)) s++;` -/
def skipws (cs : List Char) : List Char := cs.dropWhile (strchr whitespace)

/-- The token `gettoken` reads: its kind `ret`, where it starts (`*q`) and
ends (`*eq`), and `*ps`, past it and the whitespace after it. -/
structure Token where
  ret : Char
  q : List Char
  eq : List Char
  s : List Char

/-- The `switch(*s)` of `gettoken`: the token's kind, and `s` past it. -/
def scanToken : List Char → Char × List Char
  | [] => ('\x00', [])
  | c :: r =>
    match c with
    | '\x00' => ('\x00', c :: r)
    | '|' | '(' | ')' | ';' | '&' | '<' => (c, r)
    | '>' => if deref r = '>' then ('+', r.tail) else ('>', r)
    | _ => ('a', (c :: r).dropWhile fun c => !strchr whitespace c && !strchr symbols c)

def gettoken (cs : List Char) : Token :=
  let s := skipws cs
  let e := scanToken s
  ⟨e.1, s, e.2, skipws e.2⟩

/-- `peek`: `*ps` past whitespace, and whether the character there is one of `toks`. -/
def peek (cs : List Char) (toks : List Char) : Bool × List Char :=
  let s := skipws cs
  (deref s != '\x00' && strchr toks (deref s), s)

/-- What is left of the line `cs` after a parse. -/
abbrev Rest (cs : List Char) := { r : List Char // r.length ≤ cs.length }

/-- The offset of the pointer `r` into a line that ends at `es`. -/
def pos (es : Nat) (r : List Char) : Nat := es - r.length

theorem skipws_le (cs : List Char) : (skipws cs).length ≤ cs.length :=
  (List.dropWhile_suffix _).length_le

theorem peek_le (cs toks : List Char) : (peek cs toks).2.length ≤ cs.length := skipws_le cs

theorem scanToken_le : ∀ s : List Char, (scanToken s).2.length ≤ s.length
  | [] => le_rfl
  | c :: r => by
    simp only [scanToken]
    split
    · exact le_rfl
    all_goals first
      | exact (List.dropWhile_suffix _).length_le
      | (try split) <;> simp <;> omega

theorem skipws_head (cs : List Char) : ∀ c ∈ (skipws cs).head?, strchr whitespace c = false := by
  intro c hc
  have := List.head?_dropWhile_not (strchr whitespace) cs
  rw [Option.mem_def] at hc
  simp only [skipws] at hc
  rw [hc] at this
  exact this

/-- Past whitespace, a token that is not the end of the line takes at least
one character. -/
theorem scanToken_lt : ∀ {s : List Char}, (∀ c ∈ s.head?, strchr whitespace c = false) →
    (scanToken s).1 ≠ '\x00' → (scanToken s).2.length < s.length
  | [], _, h => absurd rfl h
  | c :: r, hws, h => by
    have hc : strchr whitespace c = false := hws c rfl
    simp only [scanToken] at h ⊢
    split
    · simp at h
    all_goals try (simp; done)
    · split <;> simp
    -- any other character starts a word, which takes it at least
    rename_i _ h₀ h₁ h₂ h₃ h₄ h₅ h₆ h₇
    have hs : strchr symbols c = false := by
      simp only [strchr, symbols, decide_eq_false_iff_not, List.mem_cons, List.not_mem_nil]
      tauto
    rw [List.dropWhile_cons_of_pos (by simp [hc, hs])]
    exact Nat.lt_succ_of_le (List.length_dropWhile_le _ _)

theorem skipws_skipws (cs : List Char) : skipws (skipws cs) = skipws cs := by
  have hh := skipws_head cs
  cases h : skipws cs with
  | nil => rfl
  | cons c r =>
    rw [h] at hh
    exact List.dropWhile_cons_of_neg (by simp [hh c rfl])

theorem scanToken_ret_ne {s : List Char} (h : deref s ≠ '\x00') : (scanToken s).1 ≠ '\x00' := by
  cases s with
  | nil => exact absurd rfl h
  | cons c r =>
    simp only [deref, List.headD_cons] at h
    simp only [scanToken]
    split <;> (try split) <;> simp_all

theorem gettoken_le (cs : List Char) : (gettoken cs).s.length ≤ cs.length :=
  (skipws_le _).trans ((scanToken_le _).trans (skipws_le cs))

theorem gettoken_lt {cs : List Char} (h : (gettoken cs).ret ≠ '\x00') :
    (gettoken cs).s.length < cs.length :=
  (skipws_le _).trans_lt ((scanToken_lt (skipws_head cs) h).trans_le (skipws_le cs))

theorem gettoken_lt_of_peek {cs toks : List Char} (h : (peek cs toks).1 = true) :
    (gettoken (peek cs toks).2).s.length < cs.length := by
  have hne : (gettoken (peek cs toks).2).ret ≠ '\x00' := by
    simp only [peek, Bool.and_eq_true, bne_iff_ne] at h
    simp only [peek, gettoken, skipws_skipws]
    exact scanToken_ret_ne h.1
  exact (gettoken_lt hne).trans_le (peek_le cs toks)

/-! ## The parser -/

/-- A redirection `parseredirs` reads: the arguments of its `redircmd` but
the command. -/
structure Redir where
  file : Nat
  efile : Nat
  mode : Nat
  fd : Nat
deriving Repr, DecidableEq

/-- `cmd` in the `redircmd`s of `rs`, the first innermost. -/
def Cmd.redirs (cmd : Cmd) (rs : List Redir) : Cmd :=
  rs.foldl (fun c r => .redir c r.file r.efile r.mode r.fd) cmd

/-- The redirection of a token `<`, `>` or `>>` (`+`) to the file `f`. -/
def redirOf (es : Nat) (tok : Char) (f : Token) : List Redir :=
  match tok with
  | '<' => [⟨pos es f.q, pos es f.eq, O_RDONLY, 0⟩]
  | '>' => [⟨pos es f.q, pos es f.eq, O_WRONLY ||| O_CREATE ||| O_TRUNC, 1⟩]
  | '+' => [⟨pos es f.q, pos es f.eq, O_WRONLY ||| O_CREATE, 1⟩]
  | _ => []

theorem Rest.le_of_peek {cs toks s : List Char} {b : Bool} (h : peek cs toks = (b, s)) :
    s.length ≤ cs.length := by
  have := peek_le cs toks
  rw [h] at this
  exact this

theorem Rest.lt_of_peek {cs toks s : List Char} (h : peek cs toks = (true, s)) :
    (gettoken s).s.length < cs.length := by
  have := @gettoken_lt_of_peek cs toks (by rw [h])
  rw [h] at this
  exact this

/-- What is left of what is left. -/
def Rest.trans {cs ds : List Char} (r : Rest ds) (h : ds.length ≤ cs.length) : Rest cs :=
  ⟨r.1, r.2.trans h⟩

/-- The `while(peek(ps, es, "<>"))` loop of `parseredirs`: the redirections
it reads, in order. -/
def redirLoop (es : Nat) (cs : List Char) : Except String (List Redir × Rest cs) :=
  match h : peek cs ['<', '>'] with
  | (false, s) => .ok ([], ⟨s, Rest.le_of_peek h⟩)
  | (true, s) =>
    let tok := gettoken s
    let f := gettoken tok.s
    if f.ret ≠ 'a' then .error "missing file for redirection" else
    match redirLoop es f.s with
    | .error e => .error e
    | .ok (rs, r) =>
      .ok (redirOf es tok.ret f ++ rs, r.trans ((gettoken_le _).trans (Rest.lt_of_peek h).le))
termination_by cs.length
decreasing_by exact (gettoken_le _).trans_lt (Rest.lt_of_peek h)

/-- `parseredirs`: `cmd` in the redirections that follow. -/
def parseredirs (es : Nat) (cmd : Cmd) (cs : List Char) : Except String (Cmd × Rest cs) :=
  match redirLoop es cs with
  | .error e => .error e
  | .ok (rs, r) => .ok (cmd.redirs rs, r)

/-- The `while(!peek(ps, es, "|)&;"))` loop of `parseexec`: the words it
puts in `argv` (as `argv[i]`, `eargv[i]`), and the redirections it reads
after each. -/
def execLoop (es : Nat) (argv : List (Nat × Nat)) (rs : List Redir) (cs : List Char) :
    Except String ((List (Nat × Nat) × List Redir) × Rest cs) :=
  match h : peek cs ['|', ')', '&', ';'] with
  | (true, s) => .ok ((argv, rs), ⟨s, Rest.le_of_peek h⟩)
  | (false, s) =>
    let tok := gettoken s
    if h0 : tok.ret = '\x00' then .ok ((argv, rs), ⟨tok.s, (gettoken_le s).trans (Rest.le_of_peek h)⟩)
    else if tok.ret ≠ 'a' then .error "syntax"
    else
      let argv := argv ++ [(pos es tok.q, pos es tok.eq)]
      if MAXARGS ≤ argv.length then .error "too many args"
      else
        match redirLoop es tok.s with
        | .error e => .error e
        | .ok (rs', r) =>
          match execLoop es argv (rs ++ rs') r.1 with
          | .error e => .error e
          | .ok (res, r') => .ok (res, r'.trans (r.2.trans ((gettoken_le s).trans (Rest.le_of_peek h))))
termination_by cs.length
decreasing_by exact r.2.trans_lt ((gettoken_lt h0).trans_le (Rest.le_of_peek h))

/-- The `while(peek(ps, es, "&"))` loop of `parseline`: `cmd` in a `backcmd`
for each `&`. -/
def backLoop (cmd : Cmd) (cs : List Char) : Cmd × Rest cs :=
  match h : peek cs ['&'] with
  | (false, s) => (cmd, ⟨s, Rest.le_of_peek h⟩)
  | (true, s) =>
    let r := backLoop (.back cmd) (gettoken s).s
    (r.1, r.2.trans (Rest.lt_of_peek h).le)
termination_by cs.length
decreasing_by exact Rest.lt_of_peek h

mutual

/-- `parseline`: a pipeline, in a `backcmd` for each `&` after it, and in a
`listcmd` with the rest of the line after a `;`. -/
def parseline (es : Nat) (cs : List Char) : Except String (Cmd × Rest cs) :=
  match parsepipe es cs with
  | .error e => .error e
  | .ok (cmd, r) =>
    let b := backLoop cmd r.1
    match h : peek b.2.1 [';'] with
    | (false, s) => .ok (b.1, ⟨s, (Rest.le_of_peek h).trans (b.2.2.trans r.2)⟩)
    | (true, s) =>
      match parseline es (gettoken s).s with
      | .error e => .error e
      | .ok (rhs, r') => .ok (.list b.1 rhs, r'.trans ((Rest.lt_of_peek h).le.trans (b.2.2.trans r.2)))
termination_by 4 * cs.length + 3
decreasing_by
  · omega
  · have := (Rest.lt_of_peek h).trans_le (b.2.2.trans r.2)
    omega

/-- `parsepipe`: an exec command or block, in a `pipecmd` with the pipeline
after a `|`. -/
def parsepipe (es : Nat) (cs : List Char) : Except String (Cmd × Rest cs) :=
  match parseexec es cs with
  | .error e => .error e
  | .ok (cmd, r) =>
    match h : peek r.1 ['|'] with
    | (false, s) => .ok (cmd, ⟨s, (Rest.le_of_peek h).trans r.2⟩)
    | (true, s) =>
      match parsepipe es (gettoken s).s with
      | .error e => .error e
      | .ok (rhs, r') => .ok (.pipe cmd rhs, r'.trans ((Rest.lt_of_peek h).le.trans r.2))
termination_by 4 * cs.length + 2
decreasing_by
  · omega
  · have := (Rest.lt_of_peek h).trans_le r.2
    omega

/-- `parseexec`: a block, or the words and redirections of an exec command.
`ret` points at the `redircmd`s read so far, around the `execcmd` whose
`argv` the words then fill: the command is the exec command with all its
words, in all its redirections. -/
def parseexec (es : Nat) (cs : List Char) : Except String (Cmd × Rest cs) :=
  match h : peek cs ['('] with
  | (true, s) =>
    match parseblock es s with
    | .error e => .error e
    | .ok (cmd, r) => .ok (cmd, r.trans (Rest.le_of_peek h))
  | (false, s) =>
    match redirLoop es s with
    | .error e => .error e
    | .ok (rs, r) =>
      match execLoop es [] rs r.1 with
      | .error e => .error e
      | .ok ((argv, rs), r') => .ok ((Cmd.exec argv).redirs rs, r'.trans (r.2.trans (Rest.le_of_peek h)))
termination_by 4 * cs.length + 1
decreasing_by
  have := Rest.le_of_peek h
  omega

/-- `parseblock`: the line between `(` and `)`, in the redirections after. -/
def parseblock (es : Nat) (cs : List Char) : Except String (Cmd × Rest cs) :=
  match h : peek cs ['('] with
  | (false, _) => .error "parseblock"
  | (true, s) =>
    match parseline es (gettoken s).s with
    | .error e => .error e
    | .ok (cmd, r) =>
      match h' : peek r.1 [')'] with
      | (false, _) => .error "syntax - missing )"
      | (true, s') =>
        match parseredirs es cmd (gettoken s').s with
        | .error e => .error e
        | .ok (cmd, r') =>
          .ok (cmd, r'.trans (((Rest.lt_of_peek h').trans_le (r.2.trans (Rest.lt_of_peek h).le)).le))
termination_by 4 * cs.length
decreasing_by
  have := Rest.lt_of_peek h
  omega

end

/-- `nulterminate`: a NUL written at the end of each word and file name. -/
def nulterminate : Cmd → List Char → List Char
  | .exec argv, m => argv.foldl (fun m a => m.set a.2 '\x00') m
  | .redir cmd _ efile _ _, m => (nulterminate cmd m).set efile '\x00'
  | .pipe left right, m => nulterminate right (nulterminate left m)
  | .list left right, m => nulterminate right (nulterminate left m)
  | .back cmd, m => nulterminate cmd m

/-- `parsecmd`: the command of the C string at the start of `buf`, and `buf`
after `nulterminate`; `panic("syntax")` on leftovers. -/
def parsecmd (buf : List Char) : Except String (Cmd × List Char) :=
  let cs := buf.takeWhile (· ≠ '\x00')
  match parseline cs.length cs with
  | .error e => .error e
  | .ok (cmd, r) =>
    if (peek r.1 []).2 ≠ [] then .error "syntax"
    else .ok (cmd, nulterminate cmd buf)

/-! ## What each parse returns

One lemma for each way a parse can succeed, stated by what the parses it
calls return; the round trip is proved from these alone. -/

/-- A parse's result and what is left of the line, its bound forgotten. -/
def unrest {α : Type} {cs : List Char} (x : Except String (α × Rest cs)) : Except String (α × List Char) :=
  x.map fun p => (p.1, p.2.1)

theorem unrest_eq_ok {α : Type} {cs : List Char} {x : Except String (α × Rest cs)} {a : α} {s : List Char} :
    unrest x = .ok (a, s) ↔ ∃ h, x = .ok (a, ⟨s, h⟩) := by
  cases x with
  | error e => simp [unrest, Except.map]
  | ok p =>
    obtain ⟨b, r, hr⟩ := p
    simp only [unrest, Except.map, Except.ok.injEq, Prod.mk.injEq]
    constructor
    · rintro ⟨rfl, rfl⟩
      exact ⟨hr, rfl, rfl⟩
    · rintro ⟨_, rfl, he⟩
      exact ⟨rfl, congrArg Subtype.val he⟩

section Paths

variable {es : Nat} {cs s : List Char}

theorem redirLoop_none (h : peek cs ['<', '>'] = (false, s)) : unrest (redirLoop es cs) = .ok ([], s) := by
  rw [redirLoop]
  split
  · next s' h' => rw [h] at h'; cases h'; rfl
  · next s' h' => rw [h] at h'; cases h'

theorem redirLoop_some (h : peek cs ['<', '>'] = (true, s)) (hf : (gettoken (gettoken s).s).ret = 'a')
    {rs : List Redir} {r : Rest (gettoken (gettoken s).s).s}
    (hr : redirLoop es (gettoken (gettoken s).s).s = .ok (rs, r)) :
    unrest (redirLoop es cs) = .ok (redirOf es (gettoken s).ret (gettoken (gettoken s).s) ++ rs, r.1) := by
  rw [redirLoop]
  split
  · next s' h' => rw [h] at h'; cases h'
  · next s' h' =>
    rw [h] at h'
    cases h'
    simp only [hf, ne_eq, not_true_eq_false, if_false, hr]
    rfl

theorem execLoop_stop {argv : List (Nat × Nat)} {rs : List Redir} (h : peek cs ['|', ')', '&', ';'] = (true, s)) :
    unrest (execLoop es argv rs cs) = .ok ((argv, rs), s) := by
  rw [execLoop]
  split
  · next s' h' => rw [h] at h'; cases h'; rfl
  · next s' h' => rw [h] at h'; cases h'

theorem execLoop_end {argv : List (Nat × Nat)} {rs : List Redir} (h : peek cs ['|', ')', '&', ';'] = (false, s))
    (h0 : (gettoken s).ret = '\x00') : unrest (execLoop es argv rs cs) = .ok ((argv, rs), (gettoken s).s) := by
  rw [execLoop]
  split
  · next s' h' => rw [h] at h'; cases h'
  · next s' h' =>
    rw [h] at h'
    cases h'
    simp only [h0, dif_pos]
    rfl

theorem execLoop_word {argv : List (Nat × Nat)} {rs : List Redir} (h : peek cs ['|', ')', '&', ';'] = (false, s))
    (ha : (gettoken s).ret = 'a') (hmax : argv.length + 1 < MAXARGS)
    {rs' : List Redir} {r : Rest (gettoken s).s} (hr : redirLoop es (gettoken s).s = .ok (rs', r))
    {res : List (Nat × Nat) × List Redir} {r' : Rest r.1}
    (hl : execLoop es (argv ++ [(pos es (gettoken s).q, pos es (gettoken s).eq)]) (rs ++ rs') r.1 = .ok (res, r')) :
    unrest (execLoop es argv rs cs) = .ok (res, r'.1) := by
  rw [execLoop]
  split
  · next s' h' => rw [h] at h'; cases h'
  · next s' h' =>
    rw [h] at h'
    cases h'
    have hmax' : ¬ MAXARGS ≤ (argv ++ [(pos es (gettoken s).q, pos es (gettoken s).eq)]).length := by
      simp only [List.length_append, List.length_singleton]
      omega
    simp only [ha, ne_eq, not_true_eq_false, if_false, hmax', hr, hl]
    rfl

theorem backLoop_none (cmd : Cmd) (h : peek cs ['&'] = (false, s)) :
    (backLoop cmd cs).1 = cmd ∧ (backLoop cmd cs).2.1 = s := by
  rw [backLoop]
  split
  · next s' h' => rw [h] at h'; cases h'; exact ⟨rfl, rfl⟩
  · next s' h' => rw [h] at h'; cases h'

theorem backLoop_back (cmd : Cmd) (h : peek cs ['&'] = (true, s)) :
    (backLoop cmd cs).1 = (backLoop (.back cmd) (gettoken s).s).1 ∧
      (backLoop cmd cs).2.1 = (backLoop (.back cmd) (gettoken s).s).2.1 := by
  rw [backLoop]
  split
  · next s' h' => rw [h] at h'; cases h'
  · next s' h' => rw [h] at h'; cases h'; exact ⟨rfl, rfl⟩

theorem parseline_pipe {cmd : Cmd} {r : Rest cs} (hp : parsepipe es cs = .ok (cmd, r))
    (hs : peek (backLoop cmd r.1).2.1 [';'] = (false, s)) :
    unrest (parseline es cs) = .ok ((backLoop cmd r.1).1, s) := by
  rw [parseline, hp]
  dsimp only
  split
  · next s' h' => rw [hs] at h'; cases h'; rfl
  · next s' h' => rw [hs] at h'; cases h'

theorem parseline_list {cmd : Cmd} {r : Rest cs} (hp : parsepipe es cs = .ok (cmd, r))
    (hs : peek (backLoop cmd r.1).2.1 [';'] = (true, s))
    {rhs : Cmd} {r' : Rest (gettoken s).s} (hl : parseline es (gettoken s).s = .ok (rhs, r')) :
    unrest (parseline es cs) = .ok (.list (backLoop cmd r.1).1 rhs, r'.1) := by
  rw [parseline, hp]
  dsimp only
  split
  · next s' h' => rw [hs] at h'; cases h'
  · next s' h' => rw [hs] at h'; cases h'; rw [hl]; rfl

theorem parsepipe_exec {cmd : Cmd} {r : Rest cs} (he : parseexec es cs = .ok (cmd, r))
    (hs : peek r.1 ['|'] = (false, s)) : unrest (parsepipe es cs) = .ok (cmd, s) := by
  rw [parsepipe, he]
  dsimp only
  split
  · next s' h' => rw [hs] at h'; cases h'; rfl
  · next s' h' => rw [hs] at h'; cases h'

theorem parsepipe_pipe {cmd : Cmd} {r : Rest cs} (he : parseexec es cs = .ok (cmd, r))
    (hs : peek r.1 ['|'] = (true, s)) {rhs : Cmd} {r' : Rest (gettoken s).s}
    (hp : parsepipe es (gettoken s).s = .ok (rhs, r')) :
    unrest (parsepipe es cs) = .ok (.pipe cmd rhs, r'.1) := by
  rw [parsepipe, he]
  dsimp only
  split
  · next s' h' => rw [hs] at h'; cases h'
  · next s' h' => rw [hs] at h'; cases h'; rw [hp]; rfl

theorem parseexec_block (h : peek cs ['('] = (true, s)) {cmd : Cmd} {r : Rest s}
    (hb : parseblock es s = .ok (cmd, r)) : unrest (parseexec es cs) = .ok (cmd, r.1) := by
  rw [parseexec]
  split
  · next s' h' => rw [h] at h'; cases h'; rw [hb]; rfl
  · next s' h' => rw [h] at h'; cases h'

theorem parseexec_exec (h : peek cs ['('] = (false, s)) {rs : List Redir} {r : Rest s}
    (hr : redirLoop es s = .ok (rs, r)) {argv : List (Nat × Nat)} {rs' : List Redir} {r' : Rest r.1}
    (hl : execLoop es [] rs r.1 = .ok ((argv, rs'), r')) :
    unrest (parseexec es cs) = .ok ((Cmd.exec argv).redirs rs', r'.1) := by
  rw [parseexec]
  split
  · next s' h' => rw [h] at h'; cases h'
  · next s' h' => rw [h] at h'; cases h'; rw [hr]; dsimp only; rw [hl]; rfl

theorem parseblock_eq (h : peek cs ['('] = (true, s)) {cmd : Cmd} {r : Rest (gettoken s).s}
    (hl : parseline es (gettoken s).s = .ok (cmd, r)) {s' : List Char} (h' : peek r.1 [')'] = (true, s'))
    {rs : List Redir} {r' : Rest (gettoken s').s} (hr : redirLoop es (gettoken s').s = .ok (rs, r')) :
    unrest (parseblock es cs) = .ok (cmd.redirs rs, r'.1) := by
  rw [parseblock]
  split
  · next s₁ h₁ => rw [h] at h₁; cases h₁
  · next s₁ h₁ =>
    rw [h] at h₁
    cases h₁
    rw [hl]
    dsimp only
    split
    · next s₂ h₂ => rw [h'] at h₂; cases h₂
    · next s₂ h₂ => rw [h'] at h₂; cases h₂; simp only [parseredirs, hr]; rfl

theorem parsecmd_eq {buf : List Char} {cmd : Cmd} {r : Rest (buf.takeWhile (· ≠ '\x00'))}
    (hl : parseline (buf.takeWhile (· ≠ '\x00')).length (buf.takeWhile (· ≠ '\x00')) = .ok (cmd, r))
    (hs : skipws r.1 = []) : parsecmd buf = .ok (cmd, nulterminate cmd buf) := by
  rw [parsecmd, hl]
  simp [peek, hs]

end Paths

end Xv6
