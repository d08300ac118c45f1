import Eter.Driver
import Eter.Dependencies

/-!
# How the driver discovers the files of a pack

The driver parses a file and then, one after another, the files that its `mod` declarations name.
What it prints on the way is left out. The file system is a finite map from paths to contents.
-/

namespace Eter.Driver
open Eter.Parser Stateful Dependencies

/-! ### Paths -/

abbrev Path := Bytes

def slash : UInt8 := ch '/'

/-- `path::parent_path` on a POSIX system. -/
def parentPath (p : Path) : Path :=
  let root := p.takeWhile (· == slash)
  let rel := p.drop root.length
  if rel = [] then p
  else
    let dir := ((rel.reverse.dropWhile (· != slash)).dropWhile (· == slash)).reverse
    if dir = [] then root.take 1 else root ++ dir

/-- `path::operator/`. -/
def join (dir x : Path) : Path :=
  if x.head? = some slash then x
  else if dir = [] ∨ dir.getLast? = some slash then dir ++ x
  else dir ++ slash :: x

def fileDotEt (dir modName : Path) : Path := join dir (modName ++ ascii ".et")

def modDotEt (dir modName : Path) : Path := join (join dir modName) (ascii "mod.et")

abbrev FileMap := List (Path × Bytes)

def FileMap.read (fs : FileMap) (p : Path) : Option Bytes := fs.lookup p

/-- The file of a module that is declared in a file of the directory. -/
def FileMap.resolve (fs : FileMap) (dir modName : Path) : Option Path :=
  if (fs.read (fileDotEt dir modName)).isSome then some (fileDotEt dir modName)
  else if (fs.read (modDotEt dir modName)).isSome then some (modDotEt dir modName)
  else none

/-- The part of a path between two slashes. -/
def IsComponent (x : Path) : Prop := x ≠ [] ∧ slash ∉ x

/-- A path with a last component. -/
def IsDirectory (dir : Path) : Prop := dir ≠ [] ∧ dir.getLast? ≠ some slash

/-! ### Where a module is looked for -/

section paths

variable {fs : FileMap} {dir file name x y : Path}

theorem IsComponent.head? (hx : IsComponent x) : x.head? ≠ some slash :=
  fun h => hx.2 (List.mem_of_mem_head? h)

theorem IsComponent.append (hx : IsComponent x) (hy : slash ∉ y) : IsComponent (x ++ y) :=
  ⟨List.append_ne_nil_of_left_ne_nil hx.1 y, by simpa using ⟨hx.2, hy⟩⟩

theorem IsComponent.isDirectory (hx : IsComponent x) : IsDirectory x :=
  ⟨hx.1, fun h => hx.2 (List.mem_of_mem_getLast? h)⟩

theorem IsDirectory.slash_cons (hx : IsComponent x) : IsDirectory (dir ++ slash :: x) := by
  refine ⟨by simp, fun h => hx.isDirectory.2 ?_⟩
  rwa [List.getLast?_append_of_ne_nil _ (List.cons_ne_nil _ _),
    List.getLast?_cons_of_ne_nil hx.1] at h

theorem join_eq (hdir : IsDirectory dir) (hx : IsComponent x) :
    join dir x = dir ++ slash :: x := by
  unfold join
  rw [if_neg hx.head?, if_neg (not_or.mpr hdir)]

theorem join_nil (x : Path) : join [] x = x := by
  unfold join
  split <;> rfl

theorem dropWhile_component (hfile : IsComponent file) (xs : Path) :
    ((xs ++ slash :: file).reverse.dropWhile (· != slash)) = slash :: xs.reverse := by
  have hfile' : ∀ c ∈ file.reverse, (c != slash) = true := fun c hc => by
    have hne : c ≠ slash := fun h => hfile.2 (h ▸ List.mem_reverse.mp hc)
    simpa using hne
  rw [List.reverse_append, List.reverse_cons, List.append_assoc,
    List.dropWhile_append_of_pos hfile']
  simp

/-- The slashes that a directory starts with, and the rest of it. -/
theorem IsDirectory.split (hdir : IsDirectory dir) : ∃ root rel, dir = root ++ rel ∧
    rel ≠ [] ∧ (∀ ys, (dir ++ ys).takeWhile (· == slash) = root) ∧
    rel.reverse.dropWhile (· == slash) = rel.reverse := by
  have hsplit := List.takeWhile_append_dropWhile (p := (· == slash)) (l := dir)
  have hrel : dir.dropWhile (· == slash) ≠ [] := fun h => by
    have hlast := List.getLast?_eq_getLast_of_ne_nil hdir.1
    have hslash := List.dropWhile_eq_nil_iff.mp h _ (List.getLast_mem hdir.1)
    exact hdir.2 (hlast.trans (congrArg some (eq_of_beq hslash)))
  refine ⟨_, _, hsplit.symm, hrel, fun ys => ?_, ?_⟩
  · have hlen : (dir.takeWhile (· == slash)).length ≠ dir.length := fun h => by
      have hsum := congrArg List.length hsplit
      rw [List.length_append] at hsum
      have := List.length_pos_iff.mpr hrel
      omega
    rw [List.takeWhile_append, if_neg hlen]
  · refine List.dropWhile_beq_eq_self_of_head?_ne ?_
    rw [List.head?_reverse, ← List.getLast?_append_of_ne_nil _ hrel, hsplit]
    exact hdir.2

/-- The directory of `<dir>/<file>` is `<dir>`. -/
theorem parentPath_slash (hdir : IsDirectory dir) (hfile : IsComponent file) :
    parentPath (dir ++ slash :: file) = dir := by
  obtain ⟨root, rel, rfl, hrel, hroot, hlast⟩ := hdir.split
  have hdrop : (root ++ rel ++ slash :: file).drop root.length = rel ++ slash :: file := by
    rw [List.append_assoc, List.drop_left]
  have hne : rel ++ slash :: file ≠ [] := List.append_ne_nil_of_left_ne_nil hrel _
  have hback : (slash :: rel.reverse).dropWhile (· == slash) = rel.reverse := by
    rw [List.dropWhile_cons_of_pos (by simp), hlast]
  unfold parentPath
  dsimp only
  rw [hroot, hdrop, if_neg hne, dropWhile_component hfile, hback, List.reverse_reverse,
    if_neg hrel]

/-- The directory of a file that is named without one is the empty path. -/
theorem parentPath_component (hfile : IsComponent file) : parentPath file = [] := by
  have hroot : file.takeWhile (· == slash) = [] := by
    rw [List.takeWhile_eq_nil_iff]
    intro h
    have hne : file[0] ≠ slash := fun heq => hfile.2 (heq ▸ List.getElem_mem h)
    simpa using hne
  have hback : file.reverse.dropWhile (· != slash) = [] := by
    rw [List.dropWhile_eq_nil_iff]
    intro c hc
    have hne : c ≠ slash := fun heq => hfile.2 (heq ▸ List.mem_reverse.mp hc)
    simpa using hne
  unfold parentPath
  dsimp only
  rw [hroot, List.length_nil, List.drop_zero, if_neg hfile.1, hback]
  rfl

theorem slash_notMem_dotEt : slash ∉ ascii ".et" := by decide

theorem isComponent_modDotEt : IsComponent (ascii "mod.et") := ⟨by decide, by decide⟩

theorem FileMap.resolve_eq (fs : FileMap) (dir name : Path) :
    fs.resolve dir name =
      [fileDotEt dir name, modDotEt dir name].find? fun q => (fs.read q).isSome := by
  unfold FileMap.resolve
  rw [List.find?_cons, List.find?_cons, List.find?_nil]
  cases (fs.read (fileDotEt dir name)).isSome <;> cases (fs.read (modDotEt dir name)).isSome <;> rfl

/-- A module of `<dir>/<file>` is looked for beside that file: in `<dir>/<name>.et` and then in
`<dir>/<name>/mod.et`. -/
theorem FileMap.resolve_beside (fs : FileMap) (hdir : IsDirectory dir) (hfile : IsComponent file)
    (hname : IsComponent name) :
    fs.resolve (parentPath (dir ++ slash :: file)) name =
      [dir ++ slash :: (name ++ ascii ".et"),
        dir ++ slash :: (name ++ slash :: ascii "mod.et")].find? fun q => (fs.read q).isSome := by
  have hdot : fileDotEt dir name = dir ++ slash :: (name ++ ascii ".et") :=
    join_eq hdir (hname.append slash_notMem_dotEt)
  have hmod : modDotEt dir name = dir ++ slash :: (name ++ slash :: ascii "mod.et") := by
    unfold modDotEt
    rw [join_eq hdir hname, join_eq (.slash_cons hname) isComponent_modDotEt, List.append_assoc,
      List.cons_append]
  rw [parentPath_slash hdir hfile, FileMap.resolve_eq, hdot, hmod]

/-- The same for a file that is named without a directory. -/
theorem FileMap.resolve_component (fs : FileMap) (hfile : IsComponent file)
    (hname : IsComponent name) :
    fs.resolve (parentPath file) name =
      [name ++ ascii ".et", name ++ slash :: ascii "mod.et"].find? fun q => (fs.read q).isSome := by
  have hmod : modDotEt [] name = name ++ slash :: ascii "mod.et" := by
    unfold modDotEt
    rw [join_nil, join_eq hname.isDirectory isComponent_modDotEt]
  rw [parentPath_component hfile, FileMap.resolve_eq, hmod, fileDotEt, join_nil]

end paths

/-! ### The session -/

structure PackSession where
  interner : StringInterner
  results : List (Path × ParseResult)

def PackSession.keys (session : PackSession) : List Path := session.results.map Prod.fst

/-- What a call of `parseFile` found and left in progress, and the results it left. -/
structure Return where
  entry : List Path
  exit : List Path
  keys : List Path
  deriving DecidableEq, Repr

/-- Two fields are not part of the source: the files that were parsed, and the returns of all calls,
in order. -/
structure DriverState where
  session : PackSession
  inProgress : List Path
  parsed : List Path
  returns : List Return

def DriverState.start : DriverState := ⟨⟨.new, []⟩, [], [], []⟩

abbrev DriverM := StateT DriverState (Except Stuck)

def hasResult (path : Path) : DriverM Bool := fun s => .ok (s.session.keys.contains path, s)

def isInProgress (path : Path) : DriverM Bool := fun s => .ok (s.inProgress.contains path, s)

/-- Lexes and parses the file with the interner of the session. -/
def parseSource (path : Path) (source : Bytes) : DriverM ParseResult := fun s =>
  match reportSource source s.session.interner with
  | .error stuck => .error stuck
  | .ok report => .ok (report.result,
      { s with
        session := { s.session with interner := report.interner }
        parsed := s.parsed ++ [path] })

def enter (path : Path) : DriverM Unit := fun s =>
  .ok ((), { s with inProgress := path :: s.inProgress })

/-- The scope guard. -/
def leave (path : Path) : DriverM Unit := fun s =>
  .ok ((), { s with inProgress := s.inProgress.erase path })

/-- `StringMap::insert` keeps an entry that is there. -/
def storeResult (path : Path) (result : ParseResult) : DriverM Unit := fun s =>
  .ok ((), if s.session.keys.contains path then s
    else { s with session := { s.session with results := s.session.results ++ [(path, result)] } })

def getName (id : InternedStr) : DriverM Bytes := fun s =>
  match s.session.interner.get? id with
  | some text => .ok (text, s)
  | none => .error .str

def returning (m : DriverM ℕ) : DriverM ℕ := fun s =>
  match m s with
  | .error stuck => .error stuck
  | .ok (rc, s') => .ok (rc,
      { s' with returns := s'.returns ++ [⟨s.inProgress, s'.inProgress, s'.session.keys⟩] })

/-! ### The search -/

/-- The loop over the children of the root. -/
def visitChildren (fs : FileMap) (rec : Path → DriverM ℕ) (dir : Path) (pool : NodePool) :
    List NodeIndex → DriverM ℕ
  | [] => pure 0
  | child :: rest =>
    match pool.get? child with
    | none => throw .node
    | some node =>
      if node.kind ≠ .ModDeclFile then visitChildren fs rec dir pool rest
      else do
        let modName ← getName (NodePool.payloadStr node.payload)
        match fs.resolve dir modName with
        | none => pure 1
        | some childPath =>
          let rc ← rec childPath
          if rc ≠ 0 then pure rc else visitChildren fs rec dir pool rest

def storeIf (rc : ℕ) (path : Path) (result : ParseResult) : DriverM Unit :=
  if rc = 0 then storeResult path result else pure ()

def parseOpened (fs : FileMap) (rec : Path → DriverM ℕ) (path : Path) (source : Bytes) :
    DriverM ℕ := do
  let result ← parseSource path source
  enter path
  let rc ← visitChildren fs rec (parentPath path) result.pool (result.pool.childrenOf result.root)
  storeIf rc path result
  leave path
  pure rc

/-- `parseFile` with recursion limited to a depth. -/
def parseFile (fs : FileMap) : ℕ → Path → DriverM ℕ
  | 0, _ => throw .fuel
  | n + 1, path => returning do
    if ← hasResult path then pure 0
    else if ← isInProgress path then pure 1
    else
      match fs.read path with
      | none => pure 1
      | some source => parseOpened fs (parseFile fs n) path source

def compilePack (fs : FileMap) (n : ℕ) (rootFile : Path) : Except Stuck (ℕ × DriverState) :=
  parseFile fs n rootFile .start

/-! ### What depends on what -/

/-- The names of the file modules among the nodes. -/
def moduleNames (pool : NodePool) (strings : StringInterner) (nodes : List NodeIndex) :
    List Bytes :=
  nodes.filterMap fun i => (pool.get? i).bind fun node =>
    if node.kind = .ModDeclFile then strings.get? node.payload else none

/-- The names of the file modules that a source declares outside inline modules. -/
def declaredModules (source : Bytes) : List Bytes :=
  match reportSource source .new with
  | .ok report => moduleNames report.result.pool report.interner
      (report.result.pool.childrenOf report.result.root)
  | .error _ => []

/-- The files that the modules of a file are in. -/
def dependencies (fs : FileMap) (p : Path) : Option (List (Option Path)) :=
  (fs.read p).map fun source => (declaredModules source).map (fs.resolve (parentPath p))

end Eter.Driver
