/-
  SystemOS.Lib.FileTree — a file system as a hierarchy of names, and the strings that lead into it.

  A place is the list of names that leads to it from the root.  What the operating system does with
  a string is a parameter with two laws: how it resolves one more name behind a directory, and that
  only a symbolic link is followed.  Nothing here names a program.

  Key results:
    * `lstat_path` — the whole path of an entry denotes it.
    * `lstat_cut`  — a path cut off inside the hierarchy does not.
    * `entries_lead` — the entries of a directory tree are reached through directories.
-/
import Mathlib.Data.List.Basic

namespace SystemOS.Lib.FileTree

/-! ## §1. Places and strings. -/

abbrev Name := List UInt8

/-- The names that lead from the root to an entry. -/
abbrev Place := List Name

inductive Kind
  | regular
  | directory
  | fifo
  | symlink
  | other
  deriving DecidableEq, Repr

def slash : UInt8 := 47
def dot : Name := [46]
def dotdot : Name := [46, 46]

/-- What the name `n` means in the directory `d`. -/
def component (kind : Place → Option Kind) (d : Place) (n : Name) : Option Place :=
  if n = [] ∨ n = dot then some d
  else if n = dotdot then some d.dropLast
  else if (kind (d ++ [n])).isSome then some (d ++ [n]) else none

/-- A file system: what is where, and how strings are resolved.  `lstat` does not follow a
    symbolic link at the end, `stat` does. -/
structure FileSystem where
  kind : Place → Option Kind
  readdir : Place → List Name
  lstat : List UInt8 → Option Place
  stat : List UInt8 → Option Place
  names : ∀ d, ∀ n ∈ readdir d, n ≠ [] ∧ n.length ≤ 255 ∧ slash ∉ n
  lstat_name : ∀ {p d n}, stat p = some d → kind d = some .directory → slash ∉ n →
    lstat (p ++ slash :: n) = component kind d n
  stat_eq : ∀ {p x}, lstat p = some x → kind x ≠ some .symlink → stat p = some x

/-- The names that are not links of the hierarchy itself. -/
def proper (n : Name) : Bool := n ≠ dot && n ≠ dotdot

def FileSystem.entriesOf (fs : FileSystem) (d : Place) : List Name := (fs.readdir d).filter proper

/-- The string of the entry with the names `c` below `p`. -/
def path (p : List UInt8) (c : List Name) : List UInt8 := p ++ c.flatMap (slash :: ·)

@[simp] theorem path_nil (p : List UInt8) : path p [] = p := List.append_nil p

theorem path_cons (p : List UInt8) (n : Name) (c : List Name) :
    path p (n :: c) = path (p ++ slash :: n) c := by
  simp only [path, List.flatMap_cons, List.cons_append, List.append_assoc]

variable {fs : FileSystem} {d : Place} {p : List UInt8} {n : Name} {c : List Name}

theorem component_of_proper {kind : Place → Option Kind} (hne : n ≠ []) (hn : proper n = true) :
    component kind d n = if (kind (d ++ [n])).isSome then some (d ++ [n]) else none := by
  simp only [proper, Bool.and_eq_true, decide_eq_true_eq] at hn
  rw [component, if_neg (not_or.mpr ⟨hne, hn.1⟩), if_neg hn.2]

/-- A name is never the place of something further down. -/
theorem component_ne {kind : Place → Option Kind} (h : c ≠ [n]) (hc : c ≠ []) :
    component kind d n ≠ some (d ++ c) := by
  have hself : ∀ e : Place, e.length ≤ d.length → e ≠ d ++ c := by
    intro e he heq
    have := congrArg List.length heq
    rw [List.length_append] at this
    have := List.length_pos_iff.mpr hc
    omega
  unfold component
  split
  · exact fun heq => hself d (Nat.le_refl _) (Option.some.inj heq)
  · split
    · refine fun heq => hself d.dropLast ?_ (Option.some.inj heq)
      rw [List.length_dropLast]
      exact Nat.sub_le ..
    · split
      · exact fun heq => h (List.append_cancel_left (Option.some.inj heq)).symm
      · exact nofun

/-! ## §2. Ways down. -/

/-- `c` leads from the directory `d` through directories to something. -/
def Leads (fs : FileSystem) : Place → List Name → Prop
  | _, [] => True
  | d, n :: c => (n ≠ [] ∧ slash ∉ n ∧ proper n = true) ∧ (fs.kind (d ++ [n])).isSome
      ∧ (c ≠ [] → fs.kind (d ++ [n]) = some .directory) ∧ Leads fs (d ++ [n]) c

/-- The first step of a way. -/
theorem lstat_first (hp : fs.stat p = some d) (hd : fs.kind d = some .directory)
    (h : Leads fs d (n :: c)) : fs.lstat (p ++ slash :: n) = some (d ++ [n]) := by
  obtain ⟨⟨hne, hslash, hn⟩, hsome, -, -⟩ := h
  rw [fs.lstat_name hp hd hslash, component_of_proper hne hn, if_pos hsome]

/-- A way that goes on goes on from a directory. -/
theorem stat_first (hp : fs.stat p = some d) (hd : fs.kind d = some .directory)
    (h : Leads fs d (n :: c)) (hc : c ≠ []) : fs.stat (p ++ slash :: n) = some (d ++ [n])
      ∧ fs.kind (d ++ [n]) = some .directory := by
  have hdir := h.2.2.1 hc
  refine ⟨fs.stat_eq (lstat_first hp hd h) ?_, hdir⟩
  rw [hdir]
  decide

/-- **The path of an entry denotes it.** -/
theorem lstat_path (hp : fs.stat p = some d) (hd : fs.kind d = some .directory) (hc : c ≠ [])
    (h : Leads fs d c) : fs.lstat (path p c) = some (d ++ c) := by
  induction c generalizing p d with
  | nil => exact absurd rfl hc
  | cons n c ih =>
    rw [path_cons]
    by_cases hend : c = []
    · subst hend
      rw [path_nil]
      exact lstat_first hp hd h
    · obtain ⟨hstat, hdir⟩ := stat_first hp hd h hend
      rw [ih hstat hdir hend h.2.2.2, List.append_assoc]
      rfl

/-- **A path that is cut off inside the hierarchy does not denote the entry**: what is left ends
    in another name, or at a directory on the way. -/
theorem lstat_cut {N : Nat} (hp : fs.stat p = some d) (hd : fs.kind d = some .directory)
    (h : Leads fs d c) (hin : p.length < N) (hcut : N < (path p c).length) :
    fs.lstat ((path p c).take N) ≠ some (d ++ c) := by
  induction c generalizing p d with
  | nil =>
    rw [path_nil] at hcut
    omega
  | cons n c ih =>
    have hlen : (p ++ slash :: n).length = p.length + n.length + 1 := by
      rw [List.length_append, List.length_cons, Nat.add_assoc]
    by_cases hle : N ≤ (p ++ slash :: n).length
    · -- the cut is inside this name
      obtain ⟨m, rfl⟩ : ∃ m, N = p.length + (m + 1) := ⟨N - p.length - 1, by omega⟩
      have htake : (path p (n :: c)).take (p.length + (m + 1)) = p ++ slash :: n.take m := by
        rw [path_cons, path, List.take_append_of_le_length hle, List.take_length_add_append]
        rfl
      rw [htake, fs.lstat_name hp hd fun hmem => h.1.2.1 (List.mem_of_mem_take hmem)]
      refine component_ne (fun heq => ?_) nofun
      -- only the last name, whole, would denote the entry
      obtain ⟨hname, hend⟩ := List.cons.inj heq
      rw [hend, path_cons, path_nil, hlen] at hcut
      have := congrArg List.length hname
      rw [List.length_take] at this
      omega
    · -- further down
      have hend : c ≠ [] := by
        intro hend
        rw [hend, path_cons, path_nil] at hcut
        omega
      obtain ⟨hstat, hdir⟩ := stat_first hp hd h hend
      rw [path_cons] at hcut ⊢
      have hbelow := ih hstat hdir h.2.2.2 (by omega) hcut
      rwa [List.append_assoc] at hbelow

/-! ## §3. Directory trees. -/

/-- What a directory holds besides directories. -/
inductive Leaf
  | regular
  | fifo
  | symlink
  deriving DecidableEq, Repr

def Leaf.kind : Leaf → Kind
  | .regular => .regular
  | .fifo => .fifo
  | .symlink => .symlink

/-- The contents of a directory, in the order of its entries. -/
inductive Dir
  | empty
  | leaf (name : Name) (kind : Leaf) (rest : Dir)
  | sub (name : Name) (inner rest : Dir)
  deriving DecidableEq, Repr

namespace Dir

def names : Dir → List Name
  | empty => []
  | leaf n _ rest => n :: rest.names
  | sub n _ rest => n :: rest.names

/-- Every entry at every depth, with the names that lead to it. -/
def entries : Dir → List (List Name × Kind)
  | empty => []
  | leaf n k rest => ([n], k.kind) :: rest.entries
  | sub n inner rest =>
    ([n], .directory) :: ((inner.entries.map fun e => (n :: e.1, e.2)) ++ rest.entries)

def height : Dir → Nat
  | empty => 0
  | leaf _ _ rest => rest.height
  | sub _ inner rest => max (inner.height + 1) rest.height

/-- The entries named by the tree are below `d` as the tree says. -/
def Holds (fs : FileSystem) : Place → Dir → Prop
  | _, empty => True
  | d, leaf n k rest => fs.kind (d ++ [n]) = some k.kind ∧ Holds fs d rest
  | d, sub n inner rest => (fs.kind (d ++ [n]) = some .directory
      ∧ fs.entriesOf (d ++ [n]) = inner.names ∧ Holds fs (d ++ [n]) inner) ∧ Holds fs d rest

/-- The tree is the whole of the directory `d`. -/
structure Is (fs : FileSystem) (d : Place) (t : Dir) : Prop where
  kind : fs.kind d = some .directory
  names : fs.entriesOf d = t.names
  holds : t.Holds fs d

end Dir

/-- A name read from a directory. -/
theorem entriesOf_name (h : n ∈ fs.entriesOf d) : n ≠ [] ∧ slash ∉ n ∧ proper n = true := by
  obtain ⟨hmem, hn⟩ := List.mem_filter.mp h
  obtain ⟨hne, -, hslash⟩ := fs.names d n hmem
  exact ⟨hne, hslash, hn⟩

/-- **The entries of a tree are reached through directories.** -/
theorem entries_lead {t : Dir} (hnames : ∀ n ∈ t.names, n ∈ fs.entriesOf d) (h : t.Holds fs d)
    {e : List Name × Kind} (he : e ∈ t.entries) : e.1 ≠ [] ∧ Leads fs d e.1 := by
  induction t generalizing d e with
  | empty => cases he
  | leaf n k rest ih =>
    rcases List.mem_cons.mp he with rfl | he
    · exact ⟨nofun, entriesOf_name (hnames n List.mem_cons_self), by rw [h.1]; rfl,
        fun hne => absurd rfl hne, trivial⟩
    · exact ih (fun m hm => hnames m (List.mem_cons_of_mem _ hm)) h.2 he
  | sub n inner rest ihInner ihRest =>
    have hname := entriesOf_name (hnames n List.mem_cons_self)
    have hsome : (fs.kind (d ++ [n])).isSome := by
      rw [h.1.1]
      rfl
    rcases List.mem_cons.mp he with rfl | he
    · exact ⟨nofun, hname, hsome, fun _ => h.1.1, trivial⟩
    · rcases List.mem_append.mp he with he | he
      · -- an entry of the subdirectory
        obtain ⟨e', he', rfl⟩ := List.mem_map.mp he
        have hinner := ihInner (fun m hm => h.1.2.1 ▸ hm) h.1.2.2 he'
        exact ⟨nofun, hname, hsome, fun _ => h.1.1, hinner.2⟩
      · exact ihRest (fun m hm => hnames m (List.mem_cons_of_mem _ hm)) h.2 he

/-! ## §4. A file system without symbolic links to directories. -/

/-- The place that a string leads to from `start`, name by name. -/
def locate (kind : Place → Option Kind) (start : Place) (p : List UInt8) : Option Place :=
  (p.splitOn slash).foldlM
    (fun d n => if kind d = some .directory then component kind d n else none) start

theorem locate_name {kind : Place → Option Kind} {start : Place}
    (hp : locate kind start p = some d) (hd : kind d = some .directory) (hn : slash ∉ n) :
    locate kind start (p ++ slash :: n) = component kind d n := by
  unfold locate at hp ⊢
  rw [List.splitOn_append_cons_self, List.splitOn_eq_singleton hn, List.foldlM_append, hp]
  show (if kind d = some .directory then component kind d n else none) >>= _ = _
  rw [if_pos hd]
  cases component kind d n <;> rfl

/-- Strings are resolved from `start`, and no symbolic link is followed. -/
def resolving (kind : Place → Option Kind) (readdir : Place → List Name) (start : Place)
    (names : ∀ d, ∀ n ∈ readdir d, n ≠ [] ∧ n.length ≤ 255 ∧ slash ∉ n) : FileSystem where
  kind := kind
  readdir := readdir
  lstat := locate kind start
  stat := locate kind start
  names := names
  lstat_name := locate_name
  stat_eq h _ := h

end SystemOS.Lib.FileTree
