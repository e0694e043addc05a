import Xv6.Fs.Dir

/-!
# Paths: `skipelem`, `namex`, `namei`, `nameiparent`

Path resolution from `fs.c`, over the file system as `namex` reads it
(`FsTree`: each inode's type as `ilock` loads it, each directory's entries),
with the references `namex` takes by `iget` and `idup` and drops by `iput`
counted per inode.

* `elemsOf_eq`: calling `skipelem` until it returns 0 yields the non-empty
  `/`-separated components of the path, in order, each as `DIRSIZ` bytes or
  NUL-terminated (`nameBuf`); every call shortens the path, so the loop ends
  (`length_skipelem_lt`).
* `namei_spec`: `namei` returns the inode reached from `ROOTINO` (for a path
  that begins with `/`) or the current directory by `dirlookup` of each
  component in turn, and 0 when an inode it looks in is not a directory or
  a component is missing.
* `nameiparent_spec`: `nameiparent` stops one component early and returns
  the last component in `name`; a path without components gives 0.
* In both, when `namex` returns, the only reference it still holds is the
  one on the inode it returns: every reference taken on the way is dropped.
-/

namespace Xv6

/-- root i-number -/
def ROOTINO : Nat := 1

/-- Directory -/
def T_DIR : Nat := 1

/-! ## `skipelem` -/

/-- What `skipelem` copies into `name` for a path element `s`: its first
`DIRSIZ` bytes when it is that long, else `s` and a NUL. -/
def nameBuf (s : List Char) : List Char := if s.length ≥ DIRSIZ then s.take DIRSIZ else s ++ ['\x00']

/-- `skipelem(path, name)`: the path after the next element, with no leading
slashes, and the bytes copied into `name`; `none` where it returns 0. -/
def skipelem (path : List Char) : Option (List Char × List Char) :=
  let path := path.dropWhile (· = '/')
  if path.headD '\x00' = '\x00' then none
  else
    let s := path.takeWhile fun c => c ≠ '/' ∧ c ≠ '\x00'
    some (((path.dropWhile fun c => c ≠ '/' ∧ c ≠ '\x00')).dropWhile (· = '/'), nameBuf s)

/-- The non-empty `/`-separated components of a path, up to its NUL. -/
def components (path : List Char) : List (List Char) := ((beforeNul path).splitOn '/').filter (· ≠ [])

theorem components_nil : components [] = [] := rfl

theorem components_slash (p : List Char) : components ('/' :: p) = components p := by
  rw [components, beforeNul_cons, if_neg (by decide),
    show '/' :: beforeNul p = [] ++ '/' :: beforeNul p from rfl,
    List.splitOn_append_cons_self_of_not_mem (List.not_mem_nil), List.filter_cons_of_neg (by simp)]
  rfl

theorem components_nul (p : List Char) : components ('\x00' :: p) = [] := by
  rw [components, beforeNul_cons, if_pos rfl]
  rfl

theorem components_dropWhile_slash (p : List Char) : components (p.dropWhile (· = '/')) = components p := by
  induction p with
  | nil => rfl
  | cons c p ih =>
    by_cases hc : c = '/'
    · rw [List.dropWhile_cons_of_pos (by simpa using hc), ih, hc, components_slash]
    · rw [List.dropWhile_cons_of_neg (by simpa using hc)]

/-- An element followed by the end, a slash or a NUL is the first component. -/
theorem components_append {s r : List Char} (hs : s ≠ []) (hsl : '/' ∉ s) (hnul : '\x00' ∉ s)
    (hr : r.headD '\x00' = '\x00' ∨ r.headD '\x00' = '/') : components (s ++ r) = s :: components r := by
  have hb : beforeNul (s ++ r) = s ++ beforeNul r :=
    List.takeWhile_append_of_pos fun c hc => decide_eq_true fun h => hnul (h ▸ hc)
  cases r with
  | nil =>
    rw [components, hb, beforeNul_nil, List.append_nil, List.splitOn_eq_singleton hsl,
      List.filter_cons_of_pos (by simpa using hs)]
    rfl
  | cons c r =>
    simp only [List.headD_cons] at hr
    rcases hr with rfl | rfl
    · rw [components_nul, components, hb, beforeNul_cons, if_pos rfl, List.append_nil,
        List.splitOn_eq_singleton hsl, List.filter_cons_of_pos (by simpa using hs)]
      rfl
    · rw [components_slash, components, hb, beforeNul_cons, if_neg (by decide),
        List.splitOn_append_cons_self_of_not_mem hsl, List.filter_cons_of_pos (by simpa using hs)]
      rfl

theorem headD_dropWhile_slash (p : List Char) : (p.dropWhile (· = '/')).headD '\x00' ≠ '/' := by
  induction p with
  | nil => decide
  | cons c p ih =>
    by_cases hc : c = '/'
    · rwa [List.dropWhile_cons_of_pos (by simpa using hc)]
    · rw [List.dropWhile_cons_of_neg (by simpa using hc), List.headD_cons]
      exact hc

theorem headD_dropWhile_elem (p : List Char) :
    (p.dropWhile fun c => c ≠ '/' ∧ c ≠ '\x00').headD '\x00' = '\x00' ∨
      (p.dropWhile fun c => c ≠ '/' ∧ c ≠ '\x00').headD '\x00' = '/' := by
  induction p with
  | nil => exact .inl rfl
  | cons c p ih =>
    by_cases hc : c ≠ '/' ∧ c ≠ '\x00'
    · rwa [List.dropWhile_cons_of_pos (by simpa using hc)]
    · rw [List.dropWhile_cons_of_neg (by simpa using hc), List.headD_cons]
      by_cases h : c = '/'
      · exact .inr h
      · exact .inl (by simpa [h] using hc)

/-- **What one call of `skipelem` does**: 0 when no component is left; else
the first component, copied as `nameBuf`, and a shorter path with no leading
slash whose components are the rest. -/
theorem skipelem_spec (path : List Char) :
    match skipelem path with
    | none => components path = []
    | some (rest, name) => ∃ c, components path = c :: components rest ∧ name = nameBuf c ∧
        rest.headD '\x00' ≠ '/' ∧ rest.length < path.length ∧ '/' ∉ c ∧ '\x00' ∉ c := by
  have hq := components_dropWhile_slash path
  have hhead := headD_dropWhile_slash path
  have hlen := (List.dropWhile_suffix (l := path) fun c => decide (c = '/')).length_le
  unfold skipelem
  revert hq hhead hlen
  generalize path.dropWhile (· = '/') = q
  intro hq hhead hlen
  cases q with
  | nil => simpa [← hq] using components_nil
  | cons c r =>
    by_cases hc : c = '\x00'
    · subst hc
      simpa [← hq] using components_nul r
    rw [List.headD_cons] at hhead
    rw [if_neg (by simpa using hc)]
    dsimp only
    have hpc : c ≠ '/' ∧ c ≠ '\x00' := ⟨hhead, hc⟩
    have hsplit := List.takeWhile_append_dropWhile (p := fun c => decide (c ≠ '/' ∧ c ≠ '\x00')) (l := c :: r)
    have hne : (c :: r).takeWhile (fun c => decide (c ≠ '/' ∧ c ≠ '\x00')) ≠ [] := by
      rw [List.takeWhile_cons_of_pos (by simpa using hpc)]
      exact List.cons_ne_nil _ _
    have hmem : ∀ x ∈ (c :: r).takeWhile (fun c => decide (c ≠ '/' ∧ c ≠ '\x00')), x ≠ '/' ∧ x ≠ '\x00' :=
      fun x hx => by simpa using List.mem_takeWhile_imp hx
    refine ⟨_, ?_, rfl, headD_dropWhile_slash _, ?_, fun h => (hmem _ h).1 rfl, fun h => (hmem _ h).2 rfl⟩
    · rw [← hq, components_dropWhile_slash, ← components_append hne (fun h => (hmem _ h).1 rfl)
        (fun h => (hmem _ h).2 rfl) (headD_dropWhile_elem _), hsplit]
    · have h₁ := (List.dropWhile_suffix (l := (c :: r).dropWhile fun c => decide (c ≠ '/' ∧ c ≠ '\x00'))
        fun c => decide (c = '/')).length_le
      have h₂ := congrArg List.length hsplit
      rw [List.length_append] at h₂
      have h₃ := List.length_pos_of_ne_nil hne
      omega

theorem skipelem_eq_none {path : List Char} : skipelem path = none ↔ components path = [] := by
  have h := skipelem_spec path
  constructor
  · intro hn
    rw [hn] at h
    exact h
  · intro hc
    cases hs : skipelem path with
    | none => rfl
    | some r =>
      rw [hs] at h
      obtain ⟨c, hc', -⟩ := h
      rw [hc] at hc'
      cases hc'

theorem length_skipelem_lt {path rest name : List Char} (h : skipelem path = some (rest, name)) :
    rest.length < path.length := by
  have hs := skipelem_spec path
  rw [h] at hs
  obtain ⟨_, _, _, _, hlt, _⟩ := hs
  exact hlt

/-- `skipelem` called until it returns 0: the names it copies, in order. -/
def elemsOf (path : List Char) : List (List Char) :=
  match _h : skipelem path with
  | none => []
  | some (rest, name) => name :: elemsOf rest
termination_by path.length
decreasing_by exact length_skipelem_lt _h

theorem elemsOf_of_none {path : List Char} (h : skipelem path = none) : elemsOf path = [] := by
  rw [elemsOf]
  split
  · rfl
  · rename_i h'
    rw [h] at h'
    cases h'

theorem elemsOf_of_some {path rest name : List Char} (h : skipelem path = some (rest, name)) :
    elemsOf path = name :: elemsOf rest := by
  rw [elemsOf]
  split
  · rename_i h'
    rw [h] at h'
    cases h'
  · rename_i rest' name' h'
    rw [h] at h'
    cases h'
    rfl

/-- **Iterating `skipelem` yields the path's components**, in order, each as
`skipelem` copies it into `name`. -/
theorem elemsOf_eq (path : List Char) : elemsOf path = (components path).map nameBuf := by
  induction path using elemsOf.induct with
  | case1 path h => rw [elemsOf_of_none h, skipelem_eq_none.1 h, List.map_nil]
  | case2 path rest name h ih =>
    have hs := skipelem_spec path
    rw [h] at hs
    obtain ⟨c, hc, rfl, -⟩ := hs
    rw [elemsOf_of_some h, hc, List.map_cons, ih]

theorem beforeNul_append_nul (c : List Char) : beforeNul (c ++ ['\x00']) = beforeNul c := by
  induction c with
  | nil => rfl
  | cons a c ih =>
    rw [List.cons_append, beforeNul_cons, beforeNul_cons, ih]

theorem beforeNul_take (c : List Char) (n : Nat) : beforeNul (c.take n) = (beforeNul c).take n := by
  induction c generalizing n with
  | nil => simp
  | cons a c ih =>
    cases n with
    | zero => rfl
    | succ n =>
      rw [List.take_succ_cons, beforeNul_cons, beforeNul_cons]
      split
      · rfl
      · rw [ih, List.take_succ_cons]

/-- The name `skipelem` copies agrees, under `namecmp`, with the component:
both are its first `DIRSIZ` bytes. -/
theorem nameKey_nameBuf (c : List Char) : nameKey (nameBuf c) = nameKey c := by
  unfold nameBuf nameKey
  split
  · rw [beforeNul_take, List.take_take, Nat.min_self]
  · rw [beforeNul_append_nul]

/-- A component has no slash and no NUL. -/
theorem mem_components {path c : List Char} (h : c ∈ components path) : '/' ∉ c ∧ '\x00' ∉ c := by
  induction path using elemsOf.induct with
  | case1 path hs => rw [skipelem_eq_none.1 hs] at h; cases h
  | case2 path rest name hs ih =>
    have hsp := skipelem_spec path
    rw [hs] at hsp
    obtain ⟨c', hc, -, -, -, hsl, hnul⟩ := hsp
    rw [hc] at h
    rcases List.mem_cons.1 h with rfl | h
    · exact ⟨hsl, hnul⟩
    · exact ih h

/-- **The name `skipelem` copies is the component cut at `DIRSIZ` bytes.** -/
theorem beforeNul_nameBuf {c : List Char} (h : '\x00' ∉ c) : beforeNul (nameBuf c) = c.take DIRSIZ := by
  have hc : beforeNul c = c := List.takeWhile_eq_self_iff.2 fun x hx => decide_eq_true fun he => h (he ▸ hx)
  unfold nameBuf
  split
  · rw [beforeNul_take, hc]
  · rename_i hlt
    rw [beforeNul_append_nul, hc, List.take_of_length_le (by omega)]

/-! ## `namex` -/

/-- The file system as `namex` reads it: each inode's type, as `ilock`
loads it, and each directory's entries, as `dirlookup` reads them. -/
structure FsTree where
  type : Nat → Nat
  dir : Nat → List Dirent

/-- One more reference to `ip`, by `iget` or `idup`. -/
def takeRef (refs : Nat → Int) (ip : Nat) : Nat → Int := fun x => refs x + if x = ip then 1 else 0

/-- One reference to `ip` fewer, by `iput`. -/
def dropRef (refs : Nat → Int) (ip : Nat) : Nat → Int := fun x => refs x - if x = ip then 1 else 0

/-- `namex`'s loop: holding a reference to `ip`, with `path` left and the
`name` buffer, the inode it returns (`none` for 0), `name` after, and the
references it holds, counted per inode. `ilock` panics on a free inode. -/
def namexLoop (t : FsTree) (nameiparent : Bool) (ip : Nat) (path name : List Char) (refs : Nat → Int) :
    Except String (Option Nat × List Char × (Nat → Int)) :=
  match _h : skipelem path with
  | none => if nameiparent then .ok (none, name, dropRef refs ip) else .ok (some ip, name, refs)
  | some (path', name') =>
    if t.type ip = 0 then .error "ilock: no type"
    else if t.type ip ≠ T_DIR then .ok (none, name', dropRef refs ip)
    -- Stop one level early.
    else if nameiparent = true ∧ path'.headD '\x00' = '\x00' then .ok (some ip, name', refs)
    else
      match dirlookup (t.dir ip) name' with
      | none => .ok (none, name', dropRef refs ip)
      | some (_, next) => namexLoop t nameiparent next path' name' (dropRef (takeRef refs next) ip)
termination_by path.length
decreasing_by exact length_skipelem_lt _h

/-- `namex(path, nameiparent, name)` in a process whose current directory is
`cwd`, holding no reference before. -/
def namex (t : FsTree) (cwd : Nat) (path : List Char) (nameiparent : Bool) (name : List Char) :
    Except String (Option Nat × List Char × (Nat → Int)) :=
  let ip := if path.headD '\x00' = '/' then ROOTINO else cwd
  namexLoop t nameiparent ip path name (takeRef (fun _ => 0) ip)

/-- `namei(path)`. -/
def namei (t : FsTree) (cwd : Nat) (path : List Char) : Except String (Option Nat × List Char × (Nat → Int)) :=
  namex t cwd path false (List.replicate DIRSIZ '\x00')

/-- `nameiparent(path, name)`. -/
def nameiparent (t : FsTree) (cwd : Nat) (path name : List Char) :
    Except String (Option Nat × List Char × (Nat → Int)) :=
  namex t cwd path true name

/-! ## What `namex` computes -/

/-- The inode reached from `ip` by looking each name up in turn, each in a
directory; `none` where one is not a directory or has no such entry. -/
def walk (t : FsTree) : Nat → List (List Char) → Option Nat
  | ip, [] => some ip
  | ip, n :: ns => if t.type ip ≠ T_DIR then none else (dirlookup (t.dir ip) n).bind fun r => walk t r.2 ns

/-- The directory reached from `ip` by all names but the last. -/
def walkParent (t : FsTree) : Nat → List (List Char) → Option Nat
  | _, [] => none
  | ip, [_] => if t.type ip ≠ T_DIR then none else some ip
  | ip, n :: ns => if t.type ip ≠ T_DIR then none else (dirlookup (t.dir ip) n).bind fun r => walkParent t r.2 ns

/-- One reference on the inode returned, or none for 0. -/
def held : Option Nat → Nat → Int
  | some r, x => if x = r then 1 else 0
  | none, _ => 0

/-- Every inode reached from `ip` is in use: a directory entry names an
allocated inode. -/
def Typed (t : FsTree) (ip : Nat) : Prop := ∀ ns r, walk t ip ns = some r → t.type r ≠ 0

/-- A lookup from a typed directory leads to a typed inode. -/
theorem Typed.next {t : FsTree} {ip : Nat} (hT : Typed t ip) (hdir : ¬t.type ip ≠ T_DIR) {n : List Char}
    {off next : Nat} (hl : dirlookup (t.dir ip) n = some (off, next)) : Typed t next := fun ns r hw =>
  hT (n :: ns) r (by rw [walk, if_neg hdir, hl, Option.bind_some]; exact hw)

/-- Taking a reference on `next` and dropping the one on `ip` moves the
reference `namex` holds. -/
theorem dropRef_takeRef (refs : Nat → Int) (ip next x : Nat) :
    dropRef (takeRef refs next) ip x - held (some next) x = refs x - held (some ip) x := by
  simp only [dropRef, takeRef, held]
  ring

theorem namexLoop_namei {t : FsTree} (ip : Nat) (path name : List Char) (refs : Nat → Int) (hT : Typed t ip) :
    ∃ name', namexLoop t false ip path name refs =
      .ok (walk t ip (elemsOf path), name', fun x => refs x - held (some ip) x + held (walk t ip (elemsOf path)) x) := by
  fun_induction namexLoop t false ip path name refs with
  | case1 _ _ _ _ _ hnp => exact absurd hnp Bool.false_ne_true
  | case2 ip path name refs hs _ =>
    refine ⟨name, ?_⟩
    rw [elemsOf_of_none hs, walk]
    simp
  | case3 ip path name refs rest name' hs h0 => exact absurd h0 (hT [] ip rfl)
  | case4 ip path name refs rest name' hs _ hdir =>
    refine ⟨name', ?_⟩
    rw [elemsOf_of_some hs, walk, if_pos hdir]
    simp only [held, add_zero]
    rfl
  | case5 _ _ _ _ _ _ _ _ _ hstop => exact absurd hstop.1 Bool.false_ne_true
  | case6 ip path name refs rest name' hs _ hdir _ hl =>
    refine ⟨name', ?_⟩
    rw [elemsOf_of_some hs, walk, if_neg hdir, hl, Option.bind_none]
    simp only [held, add_zero]
    rfl
  | case7 ip path name refs rest name' hs _ hdir _ off next hl ih =>
    obtain ⟨name'', h⟩ := ih (hT.next hdir hl)
    refine ⟨name'', ?_⟩
    rw [h, elemsOf_of_some hs, walk, if_neg hdir, hl, Option.bind_some]
    congr
    funext x
    rw [dropRef_takeRef]

theorem walkParent_cons (t : FsTree) (ip : Nat) (n : List Char) (ns : List (List Char)) :
    walkParent t ip (n :: ns) =
      if t.type ip ≠ T_DIR then none
      else if ns = [] then some ip
      else (dirlookup (t.dir ip) n).bind fun r => walkParent t r.2 ns := by
  cases ns with
  | nil => simp [walkParent]
  | cons m ns => simp [walkParent]

/-- **`nameiparent`'s spec** in the claim's words: the directory that `walk`
reaches by all names but the last, and none for no name. -/
theorem walkParent_eq (t : FsTree) (ip : Nat) (ns : List (List Char)) :
    walkParent t ip ns =
      if ns = [] then none
      else (walk t ip ns.dropLast).bind fun p => if t.type p = T_DIR then some p else none := by
  induction ns generalizing ip with
  | nil => rfl
  | cons n ns ih =>
    rw [walkParent_cons, if_neg (List.cons_ne_nil n ns)]
    by_cases hdir : t.type ip ≠ T_DIR
    · rw [if_pos hdir]
      cases ns with
      | nil => simp [walk, hdir]
      | cons m ns => simp [walk, hdir]
    · rw [if_neg hdir]
      cases ns with
      | nil => simp [walk, not_not.1 hdir]
      | cons m ns =>
        rw [if_neg (List.cons_ne_nil m ns), List.dropLast_cons_cons, walk, if_neg hdir, Option.bind_assoc]
        congr 1
        funext r
        rw [ih, if_neg (List.cons_ne_nil m ns)]

/-- `walk` and `walkParent` read the names only through their keys. -/
theorem walk_map_nameBuf (t : FsTree) (ip : Nat) (ns : List (List Char)) :
    walk t ip (ns.map nameBuf) = walk t ip ns ∧ walkParent t ip (ns.map nameBuf) = walkParent t ip ns := by
  induction ns generalizing ip with
  | nil => exact ⟨rfl, rfl⟩
  | cons n ns ih =>
    have h₁ : ∀ ip, walk t ip (ns.map nameBuf) = walk t ip ns := fun ip => (ih ip).1
    have h₂ : ∀ ip, walkParent t ip (ns.map nameBuf) = walkParent t ip ns := fun ip => (ih ip).2
    rw [List.map_cons, walk, walk, walkParent_cons, walkParent_cons, dirlookup_congr _ (nameKey_nameBuf n)]
    simp only [List.map_eq_nil_iff, h₁, h₂, and_self]

/-- A path that `skipelem` leaves has no leading slash, so it has no
component left exactly when it is at its NUL. -/
theorem elemsOf_eq_nil_of_skipelem {path rest name : List Char} (h : skipelem path = some (rest, name)) :
    elemsOf rest = [] ↔ rest.headD '\x00' = '\x00' := by
  have hs := skipelem_spec path
  rw [h] at hs
  obtain ⟨_, _, _, hhead, _⟩ := hs
  rw [elemsOf_eq, List.map_eq_nil_iff, ← skipelem_eq_none, skipelem]
  cases rest with
  | nil => simp
  | cons c r =>
    rw [List.headD_cons] at hhead ⊢
    rw [List.dropWhile_cons_of_neg (by simpa using hhead), List.headD_cons]
    simp

theorem namexLoop_parent {t : FsTree} (ip : Nat) (path name : List Char) (refs : Nat → Int) (hT : Typed t ip) :
    ∃ name', namexLoop t true ip path name refs =
        .ok (walkParent t ip (elemsOf path), name',
          fun x => refs x - held (some ip) x + held (walkParent t ip (elemsOf path)) x) ∧
      ((walkParent t ip (elemsOf path)).isSome → (elemsOf path).getLast? = some name') := by
  fun_induction namexLoop t true ip path name refs with
  | case1 ip path name refs hs _ =>
    refine ⟨name, ?_, ?_⟩
    · rw [elemsOf_of_none hs, walkParent]
      simp only [held, add_zero]
      rfl
    · rw [elemsOf_of_none hs, walkParent]
      simp
  | case2 _ _ _ _ _ hnp => exact absurd rfl hnp
  | case3 ip path name refs rest name' hs h0 => exact absurd h0 (hT [] ip rfl)
  | case4 ip path name refs rest name' hs _ hdir =>
    refine ⟨name', ?_, ?_⟩
    · rw [elemsOf_of_some hs, walkParent_cons, if_pos hdir]
      simp only [held, add_zero]
      rfl
    · rw [elemsOf_of_some hs, walkParent_cons, if_pos hdir]
      simp
  | case5 ip path name refs rest name' hs _ hdir hstop =>
    have hnil := (elemsOf_eq_nil_of_skipelem hs).2 hstop.2
    refine ⟨name', ?_, ?_⟩
    · rw [elemsOf_of_some hs, hnil, walkParent_cons, if_neg hdir, if_pos rfl]
      simp [held]
    · rw [elemsOf_of_some hs, hnil]
      simp
  | case6 ip path name refs rest name' hs _ hdir hstop hl =>
    have hne : elemsOf rest ≠ [] := fun h => hstop ⟨rfl, (elemsOf_eq_nil_of_skipelem hs).1 h⟩
    refine ⟨name', ?_, ?_⟩
    · rw [elemsOf_of_some hs, walkParent_cons, if_neg hdir, if_neg hne, hl, Option.bind_none]
      simp only [held, add_zero]
      rfl
    · rw [elemsOf_of_some hs, walkParent_cons, if_neg hdir, if_neg hne, hl, Option.bind_none]
      simp
  | case7 ip path name refs rest name' hs _ hdir hstop off next hl ih =>
    have hne : elemsOf rest ≠ [] := fun h => hstop ⟨rfl, (elemsOf_eq_nil_of_skipelem hs).1 h⟩
    obtain ⟨name'', h, hlast⟩ := ih (hT.next hdir hl)
    have hw : walkParent t ip (elemsOf path) = walkParent t next (elemsOf rest) := by
      rw [elemsOf_of_some hs, walkParent_cons, if_neg hdir, if_neg hne, hl, Option.bind_some]
    refine ⟨name'', ?_, ?_⟩
    · rw [h, hw]
      congr
      funext x
      rw [dropRef_takeRef]
    · rw [hw, elemsOf_of_some hs, List.getLast?_cons, ← List.getLastD_eq_getLast?]
      intro hsome
      rw [← hlast hsome, List.getLastD_eq_getLast?]
      cases hr : (elemsOf rest).getLast? with
      | none => exact absurd (List.getLast?_eq_none_iff.1 hr) hne
      | some l => rfl

/-- Where `namex` starts: the root for a path that begins with `/`, else the
current directory. -/
def startOf (cwd : Nat) (path : List Char) : Nat := if path.headD '\x00' = '/' then ROOTINO else cwd

/-- `namex` takes its first reference on where it starts. -/
theorem takeRef_held (ip x : Nat) : takeRef (fun _ => 0) ip x - held (some ip) x = 0 := by
  simp [takeRef, held]

/-- **Path resolution follows the path's components**: calling `skipelem`
until it returns 0 yields the components, each cut at `DIRSIZ` bytes;
`namei` returns the inode `walk` reaches along them, failing where an inode
it looks in is not a directory or a component is missing; `nameiparent`
returns the directory reached by all components but the last, with the last
in `name`. Either way the one reference `namex` holds when it returns is on
the inode it returns, and none when it returns 0. -/
theorem namex_follows_components (t : FsTree) (cwd : Nat) (path name : List Char)
    (hT : Typed t (startOf cwd path)) :
    elemsOf path = (components path).map nameBuf ∧
      (components path).map (fun c => beforeNul (nameBuf c)) = (components path).map (·.take DIRSIZ) ∧
      (∃ name', namei t cwd path =
        .ok (walk t (startOf cwd path) (components path), name', held (walk t (startOf cwd path) (components path)))) ∧
      ∃ name', nameiparent t cwd path name =
          .ok (walkParent t (startOf cwd path) (components path), name',
            held (walkParent t (startOf cwd path) (components path))) ∧
        ((walkParent t (startOf cwd path) (components path)).isSome →
          (components path).getLast?.map nameBuf = some name') := by
  refine ⟨elemsOf_eq path, List.map_congr_left fun c hc => beforeNul_nameBuf (mem_components hc).2, ?_, ?_⟩
  · obtain ⟨name', h⟩ := namexLoop_namei (startOf cwd path) path (List.replicate DIRSIZ '\x00')
      (takeRef (fun _ => 0) (startOf cwd path)) hT
    refine ⟨name', ?_⟩
    rw [namei, namex, ← startOf, h, elemsOf_eq, (walk_map_nameBuf t _ _).1]
    congr
    funext x
    rw [takeRef_held, zero_add]
  · obtain ⟨name', h, hlast⟩ := namexLoop_parent (startOf cwd path) path name
      (takeRef (fun _ => 0) (startOf cwd path)) hT
    rw [elemsOf_eq, (walk_map_nameBuf t _ _).2] at h hlast
    refine ⟨name', ?_, fun hs => by rw [← List.getLast?_map]; exact hlast hs⟩
    rw [nameiparent, namex, ← startOf, h]
    congr
    funext x
    rw [takeRef_held, zero_add]

/-- A root directory whose one entry names inode 2 `a`. -/
def rootWithA : FsTree :=
  ⟨fun _ => T_DIR, fun _ => [⟨2, strncpy ['a'] DIRSIZ, length_strncpy _ _⟩]⟩

/-- `namei("/a")` returns inode 2 and holds one reference, on it. -/
theorem namex_follows_components_root_a :
    ∃ name', namei rootWithA 1 ['/', 'a'] = .ok (some 2, name', held (some 2)) := by
  obtain ⟨-, -, ⟨name', h⟩, -⟩ :=
    namex_follows_components rootWithA 1 ['/', 'a'] [] fun _ _ _ => by simp [rootWithA, T_DIR]
  have hw : walk rootWithA (startOf 1 ['/', 'a']) (components ['/', 'a']) = some 2 := by decide
  rw [hw] at h
  exact ⟨name', h⟩

end Xv6
