-- SUMMARY: Absolute paths: the names that they are made of, and where they lead when no name is a symbolic link.
import LinuxNet.Base.IStream

/-! # Paths -/

namespace LinuxNet.UnixPath

def slash : UInt8 := 47

def dot : Bytes := [46]

def dotdot : Bytes := [46, 46]

/-- The names that an absolute path goes through. Empty ones and "." lead nowhere. -/
def names (path : Bytes) : List Bytes := (path.splitOn slash).filter fun s => s ≠ [] ∧ s ≠ dot

/-- One name further from a directory. The root is its own parent. -/
def walk (dir : List Bytes) (name : Bytes) : List Bytes :=
  if name = dotdot then dir.dropLast else dir ++ [name]

/-- The file at a path, as the names from the root. -/
def resolve (path : Bytes) : List Bytes := (names path).foldl walk []

/-- A name of a file or directory. -/
structure IsName (name : Bytes) : Prop where
  ne_nil : name ≠ []
  ne_dot : name ≠ dot
  ne_dotdot : name ≠ dotdot
  noSlash : slash ∉ name
  noZero : 0 ∉ name

/-- A directory, as the names from the root. -/
structure Dir where
  names : List Bytes
  isName : ∀ name ∈ names, IsName name

/-- The path of a directory. -/
def Dir.path (d : Dir) : Bytes :=
  if d.names = [] then [slash] else d.names.flatMap (slash :: ·)

variable {path word : Bytes} {d : Dir} {segs dirs : List Bytes}

/-! ## Names -/

theorem names_append (path rest : Bytes) :
    names (path ++ slash :: rest) = names path ++ names rest := by
  rw [names, List.splitOn_append_cons_self, List.filter_append]
  rfl

theorem names_segment (hslash : slash ∉ word) (hne : word ≠ []) (hdot : word ≠ dot) :
    names word = [word] := by
  rw [names, List.splitOn_eq_singleton hslash]
  simp [hne, hdot]

/-- A word before a path is joined to the first segment of it. -/
theorem names_word (hslash : slash ∉ word) (hlong : 1 < word.length) (path : Bytes) :
    names (word ++ path) =
      (word ++ path.takeWhile (· ≠ slash)) :: names (path.dropWhile (· ≠ slash)) := by
  have hfirst : slash ∉ path.takeWhile (· ≠ slash) := fun hmem => by
    simpa using List.mem_takeWhile_imp hmem
  have hsegment : names (word ++ path.takeWhile (· ≠ slash)) =
      [word ++ path.takeWhile (· ≠ slash)] := by
    apply names_segment
    · exact fun hmem => (List.mem_append.1 hmem).elim hslash hfirst
    · exact List.append_ne_nil_of_left_ne_nil (List.ne_nil_of_length_pos (by omega)) _
    · intro he
      have hlength := congrArg List.length he
      simp only [List.length_append, dot, List.length_singleton] at hlength
      omega
  have hsplit : word ++ path =
      word ++ path.takeWhile (· ≠ slash) ++ path.dropWhile (· ≠ slash) := by
    rw [List.append_assoc, List.takeWhile_append_dropWhile]
  rw [hsplit]
  cases hrest : path.dropWhile (· ≠ slash) with
  | nil => rw [List.append_nil, hsegment]; rfl
  | cons b rest =>
    obtain rfl : b = slash := by
      have hhead := List.head?_dropWhile_not (· ≠ slash) path
      rw [hrest] at hhead
      simpa using hhead
    have hnone : names (slash :: rest) = names rest := names_append [] rest
    rw [names_append, hsegment, hnone]
    rfl

theorem Dir.names_path (d : Dir) : UnixPath.names d.path = d.names := by
  obtain ⟨dirs, hdirs⟩ := d
  unfold Dir.path
  split
  · rename_i hnil
    rw [hnil]
    decide
  · have hall : ∀ l : List Bytes, (∀ name ∈ l, IsName name) → ∀ start,
        UnixPath.names (start ++ l.flatMap (slash :: ·)) = UnixPath.names start ++ l := by
      intro l hl
      induction l with
      | nil => simp
      | cons name l ih =>
        intro start
        have hname := hl name List.mem_cons_self
        rw [List.flatMap_cons, List.cons_append, names_append,
          ih (fun n hn => hl n (List.mem_cons_of_mem _ hn)),
          names_segment hname.noSlash hname.ne_nil hname.ne_dot]
        rfl
    exact (hall dirs hdirs []).trans rfl

theorem Dir.zero_not_mem (d : Dir) : 0 ∉ d.path := by
  unfold Dir.path
  split
  · decide
  · intro hmem
    obtain ⟨name, hname, hzero⟩ := List.mem_flatMap.1 hmem
    exact (d.isName name hname).noZero ((List.mem_cons.1 hzero).resolve_left (by decide))

theorem Dir.foldl_walk (d : Dir) : d.names.foldl walk [] = d.names := by
  have hall : ∀ l : List Bytes, (∀ name ∈ l, IsName name) → ∀ start,
      l.foldl walk start = start ++ l := by
    intro l hl
    induction l with
    | nil => simp
    | cons name l ih =>
      intro start
      rw [List.foldl_cons, walk, if_neg (hl name List.mem_cons_self).ne_dotdot,
        ih fun n hn => hl n (List.mem_cons_of_mem _ hn)]
      simp
  exact hall d.names d.isName []

/-! ## Climbing -/

/-- How far a walk climbs above the directory that it starts from, and the names
that it goes down from there. -/
def climb (p : Nat × List Bytes) (name : Bytes) : Nat × List Bytes :=
  if name = dotdot then if p.2 = [] then (p.1 + 1, []) else (p.1, p.2.dropLast)
  else (p.1, p.2 ++ [name])

theorem walk_climb (dirs : List Bytes) (p : Nat × List Bytes) (name : Bytes) :
    walk (dirs.take (dirs.length - p.1) ++ p.2) name =
      dirs.take (dirs.length - (climb p name).1) ++ (climb p name).2 := by
  unfold walk climb
  split
  · split
    · rename_i hdown
      rw [hdown, List.append_nil, List.append_nil, List.dropLast_eq_take, List.take_take,
        List.length_take]
      congr 1
      omega
    · rw [List.dropLast_append_of_ne_nil ‹_›]
  · rw [List.append_assoc]

theorem foldl_walk (segs dirs : List Bytes) : segs.foldl walk dirs =
    dirs.take (dirs.length - (segs.foldl climb (0, [])).1) ++ (segs.foldl climb (0, [])).2 := by
  have hall : ∀ p, segs.foldl walk (dirs.take (dirs.length - p.1) ++ p.2) =
      dirs.take (dirs.length - (segs.foldl climb p).1) ++ (segs.foldl climb p).2 := by
    induction segs with
    | nil => exact fun p => rfl
    | cons name segs ih =>
      intro p
      rw [List.foldl_cons, List.foldl_cons, walk_climb]
      exact ih (climb p name)
  have hstart := hall (0, [])
  rwa [List.append_nil, Nat.sub_zero, List.take_length] at hstart

/-- A walk from `dirs/start` ends inside `dirs/root` if it does not climb and
starts there, or if it climbs and goes down to it again. -/
theorem prefix_foldl_walk_iff {start root : Bytes} :
    dirs ++ [root] <+: segs.foldl walk (dirs ++ [start]) ↔
      (segs.foldl climb (0, [])).1 = 0 ∧ start = root ∨
      0 < (segs.foldl climb (0, [])).1 ∧
        dirs.drop (dirs.length + 1 - (segs.foldl climb (0, [])).1) ++ [root] <+:
          (segs.foldl climb (0, [])).2 := by
  rw [foldl_walk]
  generalize segs.foldl climb (0, []) = q
  obtain ⟨k, down⟩ := q
  rw [List.length_append, List.length_singleton]
  dsimp only
  rcases Nat.eq_zero_or_pos k with rfl | hk
  · have htake : (dirs ++ [start]).take (dirs.length + 1 - 0) = dirs ++ [start] :=
      List.take_of_length_le (by simp)
    rw [htake, List.append_assoc, List.prefix_append_right_inj]
    simp [List.cons_prefix_cons, eq_comm]
  · have htake : (dirs ++ [start]).take (dirs.length + 1 - k) =
        dirs.take (dirs.length + 1 - k) := List.take_append_of_le_length (by omega)
    have hsplit : dirs ++ [root] =
        dirs.take (dirs.length + 1 - k) ++ (dirs.drop (dirs.length + 1 - k) ++ [root]) := by
      rw [← List.append_assoc, List.take_append_drop]
    have hdown : dirs.take (dirs.length + 1 - k) ++ (dirs.drop (dirs.length + 1 - k) ++ [root]) <+:
        dirs.take (dirs.length + 1 - k) ++ down ↔
          dirs.drop (dirs.length + 1 - k) ++ [root] <+: down := List.prefix_append_right_inj _
    rw [htake, hsplit, hdown]
    simp [hk, hk.ne']

/-- A file in a directory is inside another one if the directory is. -/
theorem prefix_file_iff {root file : Bytes} (hroot : root ≠ file) :
    dirs ++ [root] <+: segs ++ [file] ↔ dirs ++ [root] <+: segs := by
  rw [List.prefix_concat_iff]
  refine ⟨fun h => h.resolve_left fun he => hroot ?_, .inr⟩
  exact List.singleton_inj.1 (List.append_inj_right' he rfl)

end LinuxNet.UnixPath
