/-
  SystemOS.DirCopy.TreeWalk — the walk of the directory copier over its source.

  `process_directory` builds the paths of an entry with `snprintf` in arrays of 512 bytes and calls
  itself on the strings.  The walk is followed with the ring left out: `stop` stays 0 and the
  workers make room, so the manager always comes back from its critical section.  The destination
  is outside the source, and what the walk creates there does not show in the source.

  The strings are related to the whole paths by `Cut`; the walk stays with the tree as long as each
  of them denotes its entry.

  Main results:
    * `walk_entries` — as long as the paths denote the entries, the walk is the one over the tree.
    * `copies_iff`   — when the walk ends and visits every entry once under its own paths.
    * `walk_forever` — a directory whose path has 511 bytes is walked without end.
-/
import Mathlib.Algebra.Ring.Nat
import SystemOS.Lib.FileTree

namespace SystemOS.DirCopy.TreeWalk

open SystemOS.Lib.FileTree

/-! ## §1. The walk. -/

/-- One turn of the loop over the entries of a directory, behind its first test. -/
structure Visit where
  src_path : List UInt8
  dst_path : List UInt8
  deriving DecidableEq, Repr

/-- The counters, with the visits so far. -/
structure Walk where
  visits : List Visit
  total_files : Int32
  regular_files : Int32
  fifo_files : Int32
  directories : Int32
  symlinks : Int32

def Walk.start : Walk := ⟨[], 0, 0, 0, 0, 0⟩

/-- The operating system: whether the two calls of `open` succeed. -/
structure Os extends FileSystem where
  open_src : List UInt8 → Bool
  open_dst : List UInt8 → Bool
  opens : ∀ {p x}, toFileSystem.lstat p = some x → toFileSystem.kind x = some .regular →
    open_src p = true

/-- The names that the calls of `readdir` return. -/
def Os.opendir (os : Os) (p : List UInt8) : Option (List Name) :=
  (os.stat p).bind fun d => if os.kind d = some .directory then some (os.readdir d) else none

/-- `snprintf` into an array of `n` bytes. -/
def snprintf (n : Nat) (s : List UInt8) : List UInt8 := s.take (n - 1)

/-- The body of the loop. -/
def loopBody (os : Os) (process_directory : List UInt8 → List UInt8 → Walk → Option Walk)
    (src_dir dst_dir : List UInt8) (w : Walk) (d_name : Name) : Option Walk :=
  if d_name = dot ∨ d_name = dotdot then some w
  else
    let src_path := snprintf 512 (src_dir ++ slash :: d_name)
    let dst_path := snprintf 512 (dst_dir ++ slash :: d_name)
    let w := { w with visits := w.visits ++ [⟨src_path, dst_path⟩] }
    match (os.lstat src_path).bind os.kind with
    | some .regular =>
      -- opened, and put into the ring
      if os.open_src src_path && os.open_dst dst_path then
        some { w with total_files := w.total_files + 1, regular_files := w.regular_files + 1 }
      else some w
    | some .directory =>
      process_directory src_path dst_path { w with directories := w.directories + 1 }
    | some .fifo => some { w with fifo_files := w.fifo_files + 1 }
    | some .symlink => some { w with symlinks := w.symlinks + 1 }
    -- perror("lstat"), or none of the four kinds
    | _ => some w

/-- `process_directory`, down to a depth of `fuel` calls. -/
def process_directory (os : Os) : Nat → List UInt8 → List UInt8 → Walk → Option Walk
  | 0, _, _, _ => none
  | fuel + 1, src_dir, dst_dir, w =>
    match os.opendir src_dir with
    | none => some w   -- perror("opendir")
    | some names => names.foldlM (loopBody os (process_directory os fuel) src_dir dst_dir) w

/-! ## §2. Strings and paths. -/

/-- The string `P` stands for the path `p`. -/
def Cut (P p : List UInt8) : Prop := P = p ∨ P = snprintf 512 p

variable {os : Os} {P p Q q : List UInt8} {d : Place} {n : Name} {w w' : Walk} {fuel : Nat}

/-- What is appended to the string is cut off where the path would be. -/
theorem Cut.append (h : Cut P p) (x : List UInt8) : snprintf 512 (P ++ x) = snprintf 512 (p ++ x) := by
  rcases h with rfl | rfl
  · rfl
  · unfold snprintf
    rw [List.take_append, List.take_append, List.take_take, Nat.min_self, List.length_take]
    congr 2
    omega

theorem snprintf_of_length (h : p.length ≤ 511) : snprintf 512 p = p := List.take_of_length_le h

/-- The walk goes on over the entries `es` below the paths `p` and `q`. -/
def Walk.add (w : Walk) (p q : List UInt8) (es : List (List Name × Kind)) : Walk where
  visits := w.visits ++ es.map fun e => ⟨snprintf 512 (path p e.1), snprintf 512 (path q e.1)⟩
  total_files := w.total_files + .ofNat (es.countP (·.2 = .regular))
  regular_files := w.regular_files + .ofNat (es.countP (·.2 = .regular))
  fifo_files := w.fifo_files + .ofNat (es.countP (·.2 = .fifo))
  directories := w.directories + .ofNat (es.countP (·.2 = .directory))
  symlinks := w.symlinks + .ofNat (es.countP (·.2 = .symlink))

theorem Walk.add_nil (w : Walk) (p q : List UInt8) : w.add p q [] = w := by
  have hzero : Int32.ofNat 0 = 0 := rfl
  simp only [Walk.add, List.map_nil, List.append_nil, List.countP_nil, hzero, Int32.add_zero]

theorem Walk.add_append (w : Walk) (p q : List UInt8) (es es' : List (List Name × Kind)) :
    w.add p q (es ++ es') = (w.add p q es).add p q es' := by
  simp only [Walk.add, List.map_append, List.append_assoc, List.countP_append, Int32.ofNat_add,
    Int32.add_assoc]

theorem Walk.add_cons (w : Walk) (p q : List UInt8) (e : List Name × Kind)
    (es : List (List Name × Kind)) : w.add p q (e :: es) = (w.add p q [e]).add p q es :=
  w.add_append p q [e] es

/-- The entries of a subdirectory are those below its own paths. -/
theorem Walk.add_inner (w : Walk) (p q : List UInt8) (n : Name) (es : List (List Name × Kind)) :
    w.add p q (es.map fun e => (n :: e.1, e.2))
      = w.add (p ++ slash :: n) (q ++ slash :: n) es := by
  simp only [Walk.add, List.map_map, List.countP_map, Function.comp_def, path_cons]

/-! ## §3. One entry. -/

/-- The entry has been met. -/
def Walk.visit (w : Walk) (p q : List UInt8) (n : Name) : Walk :=
  { w with visits := w.visits ++
      [⟨snprintf 512 (p ++ slash :: n), snprintf 512 (q ++ slash :: n)⟩] }

/-- One entry of each kind. -/
theorem Walk.add_single (w : Walk) (p q : List UInt8) (n : Name) (k : Kind) :
    w.add p q [([n], k)] = match k with
      | .regular => { w.visit p q n with
          total_files := w.total_files + 1, regular_files := w.regular_files + 1 }
      | .directory => { w.visit p q n with directories := w.directories + 1 }
      | .fifo => { w.visit p q n with fifo_files := w.fifo_files + 1 }
      | .symlink => { w.visit p q n with symlinks := w.symlinks + 1 }
      | .other => w.visit p q n := by
  have hzero : Int32.ofNat 0 = 0 := rfl
  have hone : Int32.ofNat 1 = 1 := rfl
  cases k <;> simp [Walk.add, Walk.visit, path_cons, path_nil, hzero, hone]

/-- Behind the first test, in terms of the whole paths. -/
theorem loopBody_proper {f : List UInt8 → List UInt8 → Walk → Option Walk} (hP : Cut P p)
    (hQ : Cut Q q) (hn : proper n = true) : loopBody os f P Q w n =
      match (os.lstat (snprintf 512 (p ++ slash :: n))).bind os.kind with
      | some .regular =>
        if os.open_src (snprintf 512 (p ++ slash :: n))
            && os.open_dst (snprintf 512 (q ++ slash :: n)) then
          some { w.visit p q n with
            total_files := w.total_files + 1, regular_files := w.regular_files + 1 }
        else some (w.visit p q n)
      | some .directory => f (snprintf 512 (p ++ slash :: n)) (snprintf 512 (q ++ slash :: n))
          { w.visit p q n with directories := w.directories + 1 }
      | some .fifo => some { w.visit p q n with fifo_files := w.fifo_files + 1 }
      | some .symlink => some { w.visit p q n with symlinks := w.symlinks + 1 }
      | _ => some (w.visit p q n) := by
  simp only [proper, Bool.and_eq_true, decide_eq_true_eq] at hn
  rw [loopBody, if_neg (not_or.mpr hn)]
  simp only [hP.append, hQ.append]
  rfl

/-- A leaf whose path denotes it is counted. -/
theorem loopBody_leaf {f : List UInt8 → List UInt8 → Walk → Option Walk} {k : Leaf}
    (hP : Cut P p) (hQ : Cut Q q) (hn : proper n = true)
    (hlstat : os.lstat (snprintf 512 (p ++ slash :: n)) = some (d ++ [n]))
    (hkind : os.kind (d ++ [n]) = some k.kind)
    (hopen : k = .regular → os.open_dst (snprintf 512 (q ++ slash :: n)) = true) :
    loopBody os f P Q w n = some (w.add p q [([n], k.kind)]) := by
  have hbind : (os.lstat (snprintf 512 (p ++ slash :: n))).bind os.kind = some k.kind := by
    rw [hlstat]
    exact hkind
  rw [loopBody_proper hP hQ hn, hbind, Walk.add_single]
  cases k with
  | regular =>
    have hboth : (os.open_src (snprintf 512 (p ++ slash :: n))
        && os.open_dst (snprintf 512 (q ++ slash :: n))) = true := by
      rw [os.opens hlstat hkind, hopen rfl]
      rfl
    exact if_pos hboth
  | fifo => rfl
  | symlink => rfl

/-- A subdirectory whose path denotes it is counted and walked. -/
theorem loopBody_sub {f : List UInt8 → List UInt8 → Walk → Option Walk}
    (hP : Cut P p) (hQ : Cut Q q) (hn : proper n = true)
    (hlstat : os.lstat (snprintf 512 (p ++ slash :: n)) = some (d ++ [n]))
    (hkind : os.kind (d ++ [n]) = some .directory) :
    loopBody os f P Q w n = f (snprintf 512 (p ++ slash :: n)) (snprintf 512 (q ++ slash :: n))
      (w.add p q [([n], .directory)]) := by
  have hbind : (os.lstat (snprintf 512 (p ++ slash :: n))).bind os.kind = some .directory := by
    rw [hlstat]
    exact hkind
  rw [loopBody_proper hP hQ hn, hbind, Walk.add_single]

/-- The links of the hierarchy itself are passed over. -/
theorem foldlM_proper {f : List UInt8 → List UInt8 → Walk → Option Walk} (ns : List Name) :
    ns.foldlM (loopBody os f P Q) w = (ns.filter proper).foldlM (loopBody os f P Q) w := by
  induction ns generalizing w with
  | nil => rfl
  | cons n ns ih =>
    by_cases hn : proper n = true
    · rw [List.filter_cons_of_pos hn, List.foldlM_cons, List.foldlM_cons]
      exact congrArg _ (funext fun _ => ih)
    · rw [List.filter_cons_of_neg hn, List.foldlM_cons]
      have hdots : n = dot ∨ n = dotdot := by
        by_contra hneither
        rw [not_or] at hneither
        exact hn (by simp only [proper, Bool.and_eq_true, decide_eq_true_eq]; exact hneither)
      rw [loopBody, if_pos hdots]
      exact ih

/-- A call on a string that leads to the directory `d`. -/
theorem process_directory_names (hP : os.stat P = some d) (hd : os.kind d = some .directory) :
    process_directory os (fuel + 1) P Q w
      = (os.entriesOf d).foldlM (loopBody os (process_directory os fuel) P Q) w := by
  have hopen : os.opendir P = some (os.readdir d) := by
    rw [Os.opendir, hP]
    exact if_pos hd
  rw [process_directory, hopen]
  exact foldlM_proper _

/-! ## §4. The walk over the tree. -/

/-- The string that the walk has for an entry denotes it. -/
def Denotes (os : Os) (p : List UInt8) (d : Place) (c : List Name) : Prop :=
  os.lstat (snprintf 512 (path p c)) = some (d ++ c)

theorem denotes_single : Denotes os p d [n]
    ↔ os.lstat (snprintf 512 (p ++ slash :: n)) = some (d ++ [n]) := by
  rw [Denotes, path_cons, path_nil]

theorem denotes_cons {c : List Name} :
    Denotes os p d (n :: c) ↔ Denotes os (p ++ slash :: n) (d ++ [n]) c := by
  rw [Denotes, Denotes, path_cons, List.append_assoc]
  rfl

/-- A string that denotes a directory leads to it. -/
theorem stat_of_denotes (h : Denotes os p d [n]) (hkind : os.kind (d ++ [n]) = some .directory) :
    os.stat (snprintf 512 (p ++ slash :: n)) = some (d ++ [n]) := by
  refine os.stat_eq (denotes_single.mp h) ?_
  rw [hkind]
  decide

/-- **The walk over a tree whose paths denote the entries**: it ends, and it has met the entries of
    the tree. -/
theorem walk_entries {t : Dir} (hP : Cut P p) (hQ : Cut Q q)
    (hnames : ∀ n ∈ t.names, n ∈ os.entriesOf d) (ht : t.Holds os.toFileSystem d)
    (hfuel : t.height ≤ fuel) (hdenotes : ∀ e ∈ t.entries, Denotes os p d e.1)
    (hopen : ∀ e ∈ t.entries, e.2 = .regular → os.open_dst (snprintf 512 (path q e.1)) = true) :
    t.names.foldlM (loopBody os (process_directory os fuel) P Q) w
      = some (w.add p q t.entries) := by
  induction t generalizing fuel P p Q q d w with
  | empty =>
    rw [Dir.entries, Walk.add_nil]
    rfl
  | leaf n k rest ih =>
    have hname := entriesOf_name (hnames n List.mem_cons_self)
    have hhead := hdenotes _ List.mem_cons_self
    have hbody := loopBody_leaf (f := process_directory os fuel) (w := w) hP hQ hname.2.2
      (denotes_single.mp hhead) ht.1 fun hk => by
        have := hopen _ List.mem_cons_self (by rw [hk]; rfl)
        rwa [path_cons, path_nil] at this
    rw [Dir.names, List.foldlM_cons, hbody, Dir.entries,
      Walk.add_cons w p q ([n], k.kind) rest.entries]
    exact ih hP hQ (fun m hm => hnames m (List.mem_cons_of_mem _ hm)) ht.2 hfuel
      (fun e he => hdenotes e (List.mem_cons_of_mem _ he))
      fun e he => hopen e (List.mem_cons_of_mem _ he)
  | sub n inner rest ihInner ihRest =>
    have hname := entriesOf_name (hnames n List.mem_cons_self)
    have hhead := hdenotes _ List.mem_cons_self
    have hinner : ∀ e ∈ inner.entries, (n :: e.1, e.2) ∈ (Dir.sub n inner rest).entries :=
      fun e he => List.mem_cons_of_mem _ (List.mem_append_left _ (List.mem_map_of_mem he))
    have hrest : ∀ e ∈ rest.entries, e ∈ (Dir.sub n inner rest).entries :=
      fun e he => List.mem_cons_of_mem _ (List.mem_append_right _ he)
    obtain ⟨m, rfl⟩ : ∃ m, fuel = m + 1 := by
      have := Nat.le_max_left (inner.height + 1) rest.height
      exact ⟨fuel - 1, by rw [Dir.height] at hfuel; omega⟩
    -- the subdirectory
    have hm : inner.height ≤ m := by
      have := Nat.le_max_left (inner.height + 1) rest.height
      rw [Dir.height] at hfuel
      omega
    have hsub := ihInner (w := w.add p q [([n], .directory)])
      (.inr rfl : Cut (snprintf 512 (p ++ slash :: n)) (p ++ slash :: n))
      (.inr rfl : Cut (snprintf 512 (q ++ slash :: n)) (q ++ slash :: n))
      (fun k hk => ht.1.2.1 ▸ hk) ht.1.2.2 hm
      (fun e he => denotes_cons.mp (hdenotes _ (hinner e he)))
      fun e he hk => by
        have := hopen _ (hinner e he) hk
        rwa [path_cons] at this
    rw [Dir.names, List.foldlM_cons, loopBody_sub hP hQ hname.2.2 (denotes_single.mp hhead) ht.1.1,
      process_directory_names (stat_of_denotes hhead ht.1.1) ht.1.1, ht.1.2.1, hsub, Dir.entries,
      Walk.add_cons w p q ([n], .directory) (_ ++ rest.entries), Walk.add_append, Walk.add_inner]
    -- and what comes behind it
    exact ihRest hP hQ (fun k hk => hnames k (List.mem_cons_of_mem _ hk)) ht.2
      (Nat.le_trans (Nat.le_max_right ..) hfuel) (fun e he => hdenotes e (hrest e he))
      fun e he => hopen e (hrest e he)

/-! ## §5. A path that denotes something else. -/

/-- A visit whose strings fit their arrays. -/
def Visit.Short (v : Visit) : Prop := v.dst_path.length ≤ 511

/-- A walk forgets no visit, and the new ones fit their arrays. -/
structure Grows (w w' : Walk) : Prop where
  kept : w.visits ⊆ w'.visits
  short : (∀ v ∈ w.visits, v.Short) → ∀ v ∈ w'.visits, v.Short

theorem Grows.refl (w : Walk) : Grows w w := ⟨fun _ hv => hv, fun h => h⟩

theorem Grows.trans {w1 w2 w3 : Walk} (h : Grows w1 w2) (h' : Grows w2 w3) : Grows w1 w3 :=
  ⟨fun _ hv => h'.kept (h.kept hv), fun hs => h'.short (h.short hs)⟩

/-- One more visit, whatever is counted. -/
theorem grows_visit {Q : List UInt8} (h : w'.visits = w.visits ++ [⟨P, snprintf 512 Q⟩]) :
    Grows w w' := by
  refine ⟨fun v hv => ?_, fun hs v hv => ?_⟩
  · rw [h]
    exact List.mem_append_left _ hv
  · rw [h] at hv
    rcases List.mem_append.mp hv with hv | hv
    · exact hs v hv
    · rw [List.mem_singleton.mp hv]
      exact List.length_take_le ..

theorem foldlM_grows {f : Walk → Name → Option Walk} (hf : ∀ w n w', f w n = some w' → Grows w w')
    (ns : List Name) (h : ns.foldlM f w = some w') : Grows w w' := by
  induction ns generalizing w with
  | nil =>
    cases h
    exact .refl _
  | cons n ns ih =>
    rw [List.foldlM_cons] at h
    obtain ⟨w1, h1, h2⟩ := Option.bind_eq_some_iff.mp h
    exact (hf w n w1 h1).trans (ih h2)

theorem loopBody_grows {f : List UInt8 → List UInt8 → Walk → Option Walk}
    (hf : ∀ P Q w w', f P Q w = some w' → Grows w w') (h : loopBody os f P Q w n = some w') :
    Grows w w' := by
  unfold loopBody at h
  dsimp only at h
  split at h
  · cases h
    exact .refl _
  · split at h
    · split at h <;> cases h <;> exact grows_visit rfl
    · exact (grows_visit rfl).trans (hf _ _ _ _ h)
    all_goals cases h; exact grows_visit rfl

theorem process_directory_grows (h : process_directory os fuel P Q w = some w') : Grows w w' := by
  induction fuel generalizing P Q w w' with
  | zero => cases h
  | succ fuel ih =>
    rw [process_directory] at h
    split at h
    · cases h
      exact .refl _
    · exact foldlM_grows (fun _ _ _ h => loopBody_grows (fun _ _ _ _ h => ih h) h) _ h

/-- A proper entry has been visited when its turn is over. -/
theorem loopBody_mem {f : List UInt8 → List UInt8 → Walk → Option Walk}
    (hf : ∀ P Q w w', f P Q w = some w' → Grows w w') (hP : Cut P p) (hQ : Cut Q q)
    (hn : proper n = true) (h : loopBody os f P Q w n = some w') :
    ⟨snprintf 512 (path p [n]), snprintf 512 (path q [n])⟩ ∈ w'.visits := by
  have hvisit : ⟨snprintf 512 (path p [n]), snprintf 512 (path q [n])⟩ ∈ (w.visit p q n).visits := by
    rw [path_cons, path_nil, path_cons, path_nil]
    exact List.mem_append_right _ (List.mem_singleton_self _)
  rw [loopBody_proper hP hQ hn] at h
  split at h
  · split at h <;> cases h <;> exact hvisit
  · exact (hf _ _ _ _ h).kept hvisit
  all_goals cases h; exact hvisit

/-- Every entry is denoted by its string, or the walk has visited one that is not. -/
def Told (os : Os) (p q : List UInt8) (d : Place) (es : List (List Name × Kind)) (w : Walk) : Prop :=
  (∀ e ∈ es, Denotes os p d e.1) ∨ ∃ e ∈ es, ¬ Denotes os p d e.1 ∧
    ⟨snprintf 512 (path p e.1), snprintf 512 (path q e.1)⟩ ∈ w.visits

variable {es es' : List (List Name × Kind)}

theorem Told.append (h : Told os p q d es w) (h' : Told os p q d es' w) :
    Told os p q d (es ++ es') w := by
  rcases h with h | ⟨e, he, hbad⟩
  · rcases h' with h' | ⟨e, he, hbad⟩
    · exact .inl (List.forall_mem_append.mpr ⟨h, h'⟩)
    · exact .inr ⟨e, List.mem_append_right _ he, hbad⟩
  · exact .inr ⟨e, List.mem_append_left _ he, hbad⟩

theorem Told.kept (h : Told os p q d es w) (hkept : w.visits ⊆ w'.visits) : Told os p q d es w' :=
  h.imp id fun ⟨e, he, hbad, hmem⟩ => ⟨e, he, hbad, hkept hmem⟩

/-- The entries of a subdirectory are entries of the directory. -/
theorem Told.below (h : Told os (p ++ slash :: n) (q ++ slash :: n) (d ++ [n]) es w) :
    Told os p q d (es.map fun e => (n :: e.1, e.2)) w := by
  refine h.imp (fun h e he => ?_) ?_
  · obtain ⟨e', he', rfl⟩ := List.mem_map.mp he
    exact denotes_cons.mpr (h e' he')
  · rintro ⟨e, he, hbad, hmem⟩
    refine ⟨(n :: e.1, e.2), List.mem_map_of_mem he, fun hd => hbad (denotes_cons.mp hd), ?_⟩
    rw [path_cons, path_cons]
    exact hmem

/-- The walk visits the first proper entry of a directory, and then the others. -/
theorem walk_head {ns : List Name} (hP : Cut P p) (hQ : Cut Q q) (hn : proper n = true)
    (h : (n :: ns).foldlM (loopBody os (process_directory os fuel) P Q) w = some w') :
    ∃ w1, loopBody os (process_directory os fuel) P Q w n = some w1
      ∧ ns.foldlM (loopBody os (process_directory os fuel) P Q) w1 = some w'
      ∧ w1.visits ⊆ w'.visits
      ∧ ⟨snprintf 512 (path p [n]), snprintf 512 (path q [n])⟩ ∈ w1.visits := by
  have hmono : ∀ P Q w w', process_directory os fuel P Q w = some w' → Grows w w' :=
    fun _ _ _ _ h => process_directory_grows h
  rw [List.foldlM_cons] at h
  obtain ⟨w1, h1, h2⟩ := Option.bind_eq_some_iff.mp h
  have hgrows := foldlM_grows (fun _ _ _ h => loopBody_grows hmono h) _ h2
  exact ⟨w1, h1, h2, hgrows.kept, loopBody_mem hmono hP hQ hn h1⟩

/-- **A walk that ends has kept to the tree, or visited an entry under a string that does not
    denote it.** -/
theorem denotes_or_visited {t : Dir} (hP : Cut P p) (hQ : Cut Q q)
    (hnames : ∀ n ∈ t.names, n ∈ os.entriesOf d) (ht : t.Holds os.toFileSystem d)
    (h : t.names.foldlM (loopBody os (process_directory os fuel) P Q) w = some w') :
    Told os p q d t.entries w' := by
  induction t generalizing fuel P p Q q d w w' with
  | empty => exact .inl fun e he => absurd he List.not_mem_nil
  | leaf n k rest ih =>
    have hname := entriesOf_name (hnames n List.mem_cons_self)
    obtain ⟨w1, h1, h2, hkept, hvisited⟩ := walk_head hP hQ hname.2.2 h
    by_cases hhead : Denotes os p d [n]
    · have hself : Told os p q d [([n], k.kind)] w' := .inl (List.forall_mem_singleton.mpr hhead)
      exact hself.append (ih hP hQ (fun m hm => hnames m (List.mem_cons_of_mem _ hm)) ht.2 h2)
    · exact .inr ⟨_, List.mem_cons_self, hhead, hkept hvisited⟩
  | sub n inner rest ihInner ihRest =>
    have hname := entriesOf_name (hnames n List.mem_cons_self)
    obtain ⟨w1, h1, h2, hkept, hvisited⟩ := walk_head hP hQ hname.2.2 h
    by_cases hhead : Denotes os p d [n]
    · -- the call walks the subdirectory
      rw [loopBody_sub hP hQ hname.2.2 (denotes_single.mp hhead) ht.1.1] at h1
      obtain ⟨m, rfl⟩ : ∃ m, fuel = m + 1 := by
        cases fuel with
        | zero => cases h1
        | succ m => exact ⟨m, rfl⟩
      rw [process_directory_names (stat_of_denotes hhead ht.1.1) ht.1.1, ht.1.2.1] at h1
      have hinner := ihInner (.inr rfl : Cut (snprintf 512 (p ++ slash :: n)) (p ++ slash :: n))
        (.inr rfl : Cut (snprintf 512 (q ++ slash :: n)) (q ++ slash :: n))
        (fun k hk => ht.1.2.1 ▸ hk) ht.1.2.2 h1
      have hrest := ihRest hP hQ (fun k hk => hnames k (List.mem_cons_of_mem _ hk)) ht.2 h2
      have hself : Told os p q d [([n], .directory)] w' :=
        .inl (List.forall_mem_singleton.mpr hhead)
      exact hself.append ((hinner.below.kept hkept).append hrest)
    · exact .inr ⟨_, List.mem_cons_self, hhead, hkept hvisited⟩

/-! ## §6. When the walk is the one over the tree. -/

/-- The source is the finite tree `t`, and the destination of a regular file can be created. -/
structure Setting (os : Os) (src dst : List UInt8) (s : Place) (t : Dir) : Prop where
  stat : os.stat src = some s
  tree : t.Is os.toFileSystem s
  creates : ∀ e ∈ t.entries, e.2 = .regular → os.open_dst (path dst e.1) = true

/-- Every entry has been visited once, under a `src_path` that denotes it and the `dst_path` below
    the destination, and the counters count the entries. -/
structure Copied (os : Os) (dst : List UInt8) (s : Place) (t : Dir) (w : Walk) : Prop where
  visits : (w.visits.map fun v => (os.lstat v.src_path, v.dst_path)).Perm
    (t.entries.map fun e => (some (s ++ e.1), path dst e.1))
  regular_files : w.regular_files.toInt = t.entries.countP (·.2 = .regular)
  directories : w.directories.toInt = t.entries.countP (·.2 = .directory)
  fifo_files : w.fifo_files.toInt = t.entries.countP (·.2 = .fifo)
  symlinks : w.symlinks.toInt = t.entries.countP (·.2 = .symlink)

/-- `process_directory` ends, and has copied the tree. -/
def Copies (os : Os) (src dst : List UInt8) (s : Place) (t : Dir) : Prop :=
  ∃ bound, ∀ fuel ≥ bound, ∃ w, process_directory os fuel src dst .start = some w
    ∧ Copied os dst s t w

/-- The entries of each kind are so few that an `int` counts them. -/
def Countable (t : Dir) : Prop :=
  ∀ k ∈ [Kind.regular, .directory, .fifo, .symlink], t.entries.countP (·.2 = k) < 2 ^ 31

instance (t : Dir) : Decidable (Countable t) := by
  unfold Countable
  infer_instance

/-- Both paths of the entry fit into 512 bytes.  If the name of the source does not fit itself, its
    first 511 bytes may happen to denote the entry. -/
def Fits (os : Os) (src dst : List UInt8) (s : Place) (c : List Name) : Prop :=
  (path dst c).length ≤ 511 ∧
    ((path src c).length ≤ 511 ∨ 511 ≤ src.length ∧ os.lstat (src.take 511) = some (s ++ c))

variable {src dst : List UInt8} {s : Place} {t : Dir}

theorem Setting.leads (h : Setting os src dst s t) {e : List Name × Kind} (he : e ∈ t.entries) :
    e.1 ≠ [] ∧ Leads os.toFileSystem s e.1 :=
  entries_lead (fun _ hn => h.tree.names ▸ hn) h.tree.holds he

/-- The string denotes the entry exactly when the path fits, or the source is lucky. -/
theorem Setting.denotes_iff (h : Setting os src dst s t) {e : List Name × Kind}
    (he : e ∈ t.entries) : Denotes os src s e.1 ↔ (path src e.1).length ≤ 511
      ∨ 511 ≤ src.length ∧ os.lstat (src.take 511) = some (s ++ e.1) := by
  obtain ⟨hne, hleads⟩ := h.leads he
  unfold Denotes
  by_cases hlen : (path src e.1).length ≤ 511
  · rw [snprintf_of_length hlen, lstat_path h.stat h.tree.kind hne hleads]
    exact iff_of_true rfl (.inl hlen)
  · by_cases hsrc : 511 ≤ src.length
    · have htake : snprintf 512 (path src e.1) = src.take 511 :=
        List.take_append_of_le_length hsrc
      rw [htake]
      exact ⟨fun heq => .inr ⟨hsrc, heq⟩, fun hor => (hor.resolve_left hlen).2⟩
    · refine iff_of_false ?_ fun hor => hor.elim hlen fun hboth => hsrc hboth.1
      exact lstat_cut h.stat h.tree.kind hleads (by omega) (by omega)

/-- A call on the source. -/
theorem Setting.call (h : Setting os src dst s t) : process_directory os (fuel + 1) src dst w
    = t.names.foldlM (loopBody os (process_directory os fuel) src dst) w := by
  rw [process_directory_names h.stat h.tree.kind, h.tree.names]

/-- A counter that has counted `k` entries. -/
theorem counter_toInt {k : Nat} (h : k < 2 ^ 31) : ((0 : Int32) + .ofNat k).toInt = k := by
  rw [Int32.zero_add, Int32.toInt_ofNat_of_lt h]

theorem copies_of_fits (h : Setting os src dst s t) (hfits : ∀ e ∈ t.entries, Fits os src dst s e.1)
    (hcount : Countable t) : Copies os src dst s t := by
  have hdst : ∀ e ∈ t.entries, snprintf 512 (path dst e.1) = path dst e.1 := fun e he =>
    snprintf_of_length (hfits e he).1
  have hdenotes : ∀ e ∈ t.entries, Denotes os src s e.1 := fun e he =>
    (h.denotes_iff he).mpr (hfits e he).2
  refine ⟨t.height + 1, fun fuel hfuel => ⟨Walk.start.add src dst t.entries, ?_, ?_⟩⟩
  · obtain ⟨m, rfl⟩ : ∃ m, fuel = m + 1 := ⟨fuel - 1, by omega⟩
    rw [h.call]
    refine walk_entries (.inl rfl) (.inl rfl) (fun _ hn => h.tree.names ▸ hn) h.tree.holds
      (by omega) hdenotes fun e he hk => ?_
    rw [hdst e he]
    exact h.creates e he hk
  · refine ⟨List.Perm.of_eq ?_, counter_toInt (hcount _ (by simp)), counter_toInt (hcount _ (by simp)),
      counter_toInt (hcount _ (by simp)), counter_toInt (hcount _ (by simp))⟩
    show ((t.entries.map _).map _) = _
    rw [List.map_map]
    refine List.map_congr_left fun e he => Prod.ext (hdenotes e he) (hdst e he)

theorem fits_of_copies (h : Setting os src dst s t) (hcopies : Copies os src dst s t) :
    ∀ e ∈ t.entries, Fits os src dst s e.1 := by
  obtain ⟨bound, hbound⟩ := hcopies
  obtain ⟨w, hw, hcopied⟩ := hbound (bound + 1) (Nat.le_succ bound)
  have hshort := (process_directory_grows hw).short fun v hv => absurd hv List.not_mem_nil
  -- every entry is visited, so its second path fits
  have hdst : ∀ e ∈ t.entries, (path dst e.1).length ≤ 511 := by
    intro e he
    have hmem := hcopied.visits.mem_iff.mpr (List.mem_map_of_mem he)
    obtain ⟨v, hv, heq⟩ := List.mem_map.mp hmem
    exact (Prod.mk.inj heq).2 ▸ hshort v hv
  rw [h.call] at hw
  rcases denotes_or_visited (.inl rfl) (.inl rfl) (fun _ hn => h.tree.names ▸ hn) h.tree.holds hw
    with hall | ⟨e, he, hbad, hmem⟩
  · exact fun e he => ⟨hdst e he, (h.denotes_iff he).mp (hall e he)⟩
  · -- the visit is that of another entry, but the destination tells them apart
    exfalso
    have hmap := hcopied.visits.mem_iff.mp (List.mem_map_of_mem hmem)
    obtain ⟨e', he', heq⟩ := List.mem_map.mp hmap
    obtain ⟨hplace, hpath⟩ := Prod.mk.inj heq
    change path dst e'.1 = snprintf 512 (path dst e.1) at hpath
    rw [snprintf_of_length (hdst e he)] at hpath
    -- the same names lead to both
    have hnames : path src e'.1 = path src e.1 :=
      congrArg (src ++ ·) (List.append_cancel_left hpath)
    have hplaces : some (s ++ e'.1) = some (s ++ e.1) := by
      rw [← lstat_path h.stat h.tree.kind (h.leads he').1 (h.leads he').2, hnames,
        lstat_path h.stat h.tree.kind (h.leads he).1 (h.leads he).2]
    exact hbad (hplace.symm.trans hplaces)

/-- Counters that hold the numbers of entries. -/
theorem countable_of_copies (hcopies : Copies os src dst s t) : Countable t := by
  obtain ⟨bound, hbound⟩ := hcopies
  obtain ⟨w, _, hcopied⟩ := hbound bound (Nat.le_refl bound)
  have hless : ∀ {x : Int32} {k : Nat}, x.toInt = k → k < 2 ^ 31 := by
    intro x k hx
    have := x.toInt_lt
    omega
  intro k hk
  simp only [List.mem_cons, List.not_mem_nil, or_false] at hk
  rcases hk with rfl | rfl | rfl | rfl
  · exact hless hcopied.regular_files
  · exact hless hcopied.directories
  · exact hless hcopied.fifo_files
  · exact hless hcopied.symlinks

/-- **The walk ends, visits every entry once under its own paths and counts it**, exactly when both
    paths of every entry have at most 511 bytes, but for a source whose own name is longer, and the
    counters do not overflow. -/
theorem copies_iff (h : Setting os src dst s t) :
    Copies os src dst s t ↔ (∀ e ∈ t.entries, Fits os src dst s e.1) ∧ Countable t :=
  ⟨fun hcopies => ⟨fits_of_copies h hcopies, countable_of_copies hcopies⟩,
    fun ⟨hfits, hcount⟩ => copies_of_fits h hfits hcount⟩

/-! ## §7. A walk without end. -/

/-- A call that never returns lets no loop end that makes it. -/
theorem foldlM_none {f : Walk → Name → Option Walk} {ns : List Name} (hn : n ∈ ns)
    (hf : ∀ w, f w n = none) : ns.foldlM f w = none := by
  induction ns generalizing w with
  | nil => cases hn
  | cons m ns ih =>
    rw [List.foldlM_cons]
    rcases List.mem_cons.mp hn with rfl | hn
    · rw [hf w]
      rfl
    · cases hw : f w m with
      | none => rfl
      | some w1 => exact ih hn

/-- **A directory whose path has 511 bytes is walked without end**: the path of each of its entries
    is cut back to its own. -/
theorem walk_forever (hlen : P.length = 511) (hlstat : os.lstat P = some d)
    (hd : os.kind d = some .directory) (hn : n ∈ os.entriesOf d) :
    process_directory os fuel P Q w = none := by
  induction fuel generalizing Q w with
  | zero => rfl
  | succ fuel ih =>
    have hstat : os.stat P = some d := os.stat_eq hlstat (by rw [hd]; decide)
    have hcut : snprintf 512 (P ++ slash :: n) = P := List.take_left' hlen
    rw [process_directory_names hstat hd]
    refine foldlM_none hn fun w' => ?_
    have hbind : (os.lstat P).bind os.kind = some .directory := by
      rw [hlstat]
      exact hd
    rw [loopBody_proper (.inl rfl) (.inl rfl) (entriesOf_name hn).2.2, hcut, hbind]
    exact ih

/-! ## §8. Two sources. -/

/-- A machine on which every directory holds one entry, down to a regular file. -/
def chain (names : List Name) (h : ∀ n ∈ names, n ≠ [] ∧ n.length ≤ 255 ∧ slash ∉ n) : Os where
  toFileSystem := resolving
    (fun d => if d = names then some .regular
      else if d.isPrefixOf names then some .directory else none)
    (fun d => if d.isPrefixOf names then dot :: dotdot :: (names.drop d.length).take 1 else [])
    [] (by
      intro d n hn
      split at hn
      · rcases List.mem_cons.mp hn with rfl | hn
        · decide
        · rcases List.mem_cons.mp hn with rfl | hn
          · decide
          · exact h n (List.mem_of_mem_drop (List.mem_of_mem_take hn))
      · cases hn)
  open_src _ := true
  open_dst _ := true
  opens _ _ := rfl

/-- The file `s/m/f`, to be copied to `d`. -/
def shallow : Os := chain [[115], [109], [102]] (by decide)

def shallowTree : Dir := .sub [109] (.leaf [102] .regular .empty) .empty

theorem shallow_setting : Setting shallow [115] [100] [[115]] shallowTree where
  stat := by decide
  tree := ⟨by decide, by decide, ⟨by decide, by decide, by decide, trivial⟩, trivial⟩
  creates _ _ _ := rfl

theorem copies_iff_shallow : Copies shallow [115] [100] [[115]] shallowTree := by
  refine (copies_iff shallow_setting).mpr ⟨fun e he => ?_, by decide⟩
  have hentries : shallowTree.entries = [([[109]], .directory), ([[109], [102]], .regular)] := rfl
  rw [hentries] at he
  rcases List.mem_pair.mp he with rfl | rfl
  · exact ⟨by decide, .inl (by decide)⟩
  · exact ⟨by decide, .inl (by decide)⟩

/-- Names of 255 and of 253 bytes. -/
def longName : Name := List.replicate 255 97
def lessLong : Name := List.replicate 253 97

/-- The file `f`, in a directory whose path has 511 bytes. -/
def deep : Os := chain [[115], longName, lessLong, [102]] (by decide +kernel)

def deepTree : Dir := .sub longName (.sub lessLong (.leaf [102] .regular .empty) .empty) .empty

theorem deep_setting : Setting deep [115] [100] [[115]] deepTree where
  stat := by decide +kernel
  tree := ⟨by decide +kernel, by decide +kernel, ⟨by decide +kernel, by decide +kernel,
    ⟨by decide +kernel, by decide +kernel, by decide +kernel, trivial⟩, trivial⟩, trivial⟩
  creates _ _ _ := rfl

/-- The directory in which the file is is entered again and again. -/
theorem deep_not_copied : ¬ ∀ (os : Os) (src dst : List UInt8) (s : Place) (t : Dir),
    Setting os src dst s t → Copies os src dst s t := by
  intro hclaim
  have hfits := fits_of_copies deep_setting (hclaim _ _ _ _ _ deep_setting)
    ([longName, lessLong, [102]], .regular) (by decide +kernel)
  rcases hfits.2 with hlen | ⟨hlen, -⟩
  · exact absurd hlen (by decide +kernel)
  · exact absurd hlen (by decide)

end SystemOS.DirCopy.TreeWalk
