import WorkflowForge.Engine.Binding
import WorkflowForge.Sqlite.Query
import WorkflowForge.Store.Reference

/-!
# Scope Paths

The key of an activation is a path of segments written as a JSON Pointer. Tags and escaped
identifiers are separate segments, so no identifier can imitate a tag or a separator.

## Main results

- `tokens_key`: a key read as a JSON Pointer is its path.
- `key_startsWith_iff`: a key below another is a path below the other.
- `Activation.path_injective`: an activation is determined by its path.
- `scope_paths_identify`: keys identify activations, and both stores' ranges are the
  activations below one.
-/

namespace WorkflowForge.Engine

open Lib

/-! ## Paths and keys -/

/-- `str::replace` of a character. -/
def replace (c : Char) (word : String) (s : String) : String :=
  .ofList (s.toList.flatMap fun x => if x = c then word.toList else [x])

def escape (s : String) : String :=
  replace '/' "~1" (replace '~' "~0" s)

structure ScopePath where
  parts : List String := []
deriving DecidableEq

namespace ScopePath

def child (p : ScopePath) (node : String) (segments : List String) : ScopePath :=
  ⟨p.parts ++ ["nodes", node] ++ segments⟩

def key (p : ScopePath) : String :=
  "/" ++ "/".intercalate (p.parts.map escape)

/-- The key of a node of the body at a path. -/
def node (p : ScopePath) (id : String) : String :=
  (p.child id []).key

end ScopePath

/-! ## Escapes -/

/-- Both replacements act on one character at a time. -/
def escapeChar (c : Char) : List Char :=
  if c = '~' then ['~', '0'] else if c = '/' then ['~', '1'] else [c]

theorem toList_escape (s : String) : (escape s).toList = s.toList.flatMap escapeChar := by
  simp only [escape, replace, String.toList_ofList, List.flatMap_assoc]
  refine List.flatMap_congr fun c _ => ?_
  by_cases hc : c = '~'
  · simp [escapeChar, hc]
  · simp [escapeChar, hc]

/-- An escaped segment has no separator. -/
theorem slash_not_mem_escape (s : String) : '/' ∉ (escape s).toList := by
  rw [toList_escape, List.mem_flatMap]
  rintro ⟨c, _, hc⟩
  unfold escapeChar at hc
  split at hc
  · simp at hc
  · split at hc
    · simp at hc
    · next hslash => exact hslash (List.mem_singleton.mp hc).symm

theorem decodeToken_escapeChar (c : Char) (rest : List Char) :
    Mapping.decodeToken (escapeChar c ++ rest) = (Mapping.decodeToken rest).map (c :: ·) := by
  unfold escapeChar
  split
  · next h => subst h; rfl
  · split
    · next h => subst h; rfl
    · next htilde _ =>
      rw [List.singleton_append, Mapping.decodeToken.eq_def]
      split <;> simp_all

/-- The escapes of a segment decode to it. -/
theorem decodeToken_escape (s : String) :
    Mapping.decodeToken (escape s).toList = some s.toList := by
  rw [toList_escape]
  -- by induction on the characters, each escaped by itself
  induction s.toList with
  | nil => rfl
  | cons c cs ih => rw [List.flatMap_cons, decodeToken_escapeChar, ih, Option.map_some]

theorem escape_injective {s t : String} (h : escape s = escape t) : s = t := by
  have hs := decodeToken_escape s
  rw [h, decodeToken_escape t] at hs
  exact (String.toList_inj.mp (Option.some.inj hs)).symm

/-! ## Keys -/

namespace ScopePath

theorem toList_key (p : ScopePath) :
    p.key.toList = '/' :: List.intercalate ['/'] (p.parts.map fun s => (escape s).toList) := by
  simp only [key, String.toList_append, String.toList_intercalate, List.map_map]
  rfl

theorem splitOn_key (p : ScopePath) (h : p.parts ≠ []) :
    (List.intercalate ['/'] (p.parts.map fun s => (escape s).toList)).splitOn '/' =
      p.parts.map fun s => (escape s).toList := by
  refine List.splitOn_intercalate '/' ?_ (by simpa using h)
  intro l hl
  obtain ⟨s, _, rfl⟩ := List.mem_map.mp hl
  exact slash_not_mem_escape s

/-- A key read as a JSON Pointer is its path. -/
theorem tokens_key (p : ScopePath) (h : p.parts ≠ []) :
    Mapping.tokens p.key = .ok p.parts := by
  have hmap : ∀ parts : List String,
      (parts.map fun s => (escape s).toList).mapM (fun token =>
        okOr ((Mapping.decodeToken token).map String.ofList)
          (Mapping.invalid "Invalid JSON Pointer escape")) = .ok parts := by
    intro parts
    induction parts with
    | nil => rfl
    | cons s parts ih =>
      rw [List.map_cons, List.mapM_cons, ih, decodeToken_escape, Option.map_some,
        String.ofList_toList]
      rfl
  simp only [Mapping.tokens, toList_key, splitOn_key p h, hmap]

theorem key_injective {p q : ScopePath} (hp : p.parts ≠ []) (hq : q.parts ≠ [])
    (h : p.key = q.key) : p = q := by
  have hparts : p.parts = q.parts := by
    have := tokens_key p hp
    rw [h, tokens_key q hq] at this
    exact (Except.ok.inj this).symm
  cases p; cases q; exact congrArg ScopePath.mk hparts

/-- A key continues another one with a slash exactly when the path strictly continues the
other path. -/
theorem key_startsWith_iff {p q : ScopePath} (hp : p.parts ≠ []) (hq : q.parts ≠ []) :
    startsWith q.key (p.key ++ "/") = true ↔ p.parts <+: q.parts ∧ p.parts ≠ q.parts := by
  rw [startsWith, List.isPrefixOf_iff_prefix]
  constructor
  · rintro ⟨rest, hrest⟩
    -- what follows the slash splits into further segments
    have hsplit : q.parts.map (fun s => (escape s).toList) =
        p.parts.map (fun s => (escape s).toList) ++ rest.splitOn '/' := by
      rw [← splitOn_key q hq, ← splitOn_key p hp, ← List.splitOn_append_cons_self]
      rw [String.toList_append, toList_key, toList_key] at hrest
      refine congrArg (List.splitOn '/') ?_
      simpa using hrest.symm
    have hlen : p.parts.length < q.parts.length := by
      have := congrArg List.length hsplit
      have hne := List.length_pos_iff.mpr (List.splitOn_ne_nil '/' rest)
      simp only [List.length_map, List.length_append] at this
      omega
    refine ⟨?_, fun h => absurd (congrArg List.length h) hlen.ne⟩
    have htake : (q.parts.take p.parts.length).map (fun s => (escape s).toList) =
        p.parts.map fun s => (escape s).toList := by
      rw [List.map_take, hsplit, List.take_left' (by rw [List.length_map])]
    have heq : q.parts.take p.parts.length = p.parts :=
      (List.map_inj_right fun s t h => escape_injective (String.toList_inj.mp h)).mp htake
    exact heq ▸ List.take_prefix _ _
  · rintro ⟨⟨rest, hrest⟩, hne⟩
    have hrest' : rest ≠ [] := by
      rintro rfl
      exact hne (by rw [← hrest, List.append_nil])
    have hkey : q.key = p.key ++ "/" ++ "/".intercalate (rest.map escape) := by
      rw [key, key, ← hrest, List.map_append,
        String.intercalate_append_of_ne_nil (by simpa using hp) (by simpa using hrest')]
      simp only [String.append_assoc]
    refine ⟨("/".intercalate (rest.map escape)).toList, ?_⟩
    simp only [hkey, String.toList_append]

end ScopePath

/-! ## Activations -/

/-- How the body a node runs, or the operation a wait starts with, is entered. -/
inductive ScopeStep where
  | «try»
  | «catch» (handler : String)
  | cases (selected : String)
  | branches (label : String)
  | items (index : Nat)
  | iterations (iteration : Nat)
  | workflows (id revision : String)
  | start
deriving DecidableEq

/-- The segments a control construct appends to the path of its node. -/
def ScopeStep.segments : ScopeStep → List String
  | .try => ["try"]
  | .catch handler => ["catch", handler]
  | .cases selected => ["cases", selected]
  | .branches label => ["branches", label]
  | .items index => ["items", index.repr]
  | .iterations iteration => ["iterations", iteration.repr]
  | .workflows id revision => ["workflows", id, "revisions", revision]
  | .start => ["start"]

/-- One activation of a run: the nodes it is inside of, each with the way it was entered, and
its own node. The operation a wait starts with is the node `invoke` inside the wait. -/
structure Activation where
  within : List (String × ScopeStep)
  id : String
deriving DecidableEq

namespace Activation

/-- The path of the body reached by some steps from another one. -/
def scope (p : ScopePath) : List (String × ScopeStep) → ScopePath
  | [] => p
  | (node, step) :: steps => scope (p.child node step.segments) steps

def path (a : Activation) : ScopePath :=
  (scope {} a.within).child a.id []

def key (a : Activation) : String :=
  (scope {} a.within).node a.id

/-- The activation of the operation that the wait at `a` starts with. -/
def start (a : Activation) : Activation :=
  ⟨a.within ++ [(a.id, .start)], "invoke"⟩

/-- `b` belongs to a body that the node of `a` runs. -/
def Inside (b a : Activation) : Prop :=
  ∃ step rest, b.within = a.within ++ (a.id, step) :: rest

def stepParts (s : String × ScopeStep) : List String :=
  "nodes" :: s.1 :: s.2.segments

def parts (a : Activation) : List String :=
  a.within.flatMap stepParts ++ ["nodes", a.id]

theorem scope_parts (steps : List (String × ScopeStep)) (p : ScopePath) :
    (scope p steps).parts = p.parts ++ steps.flatMap stepParts := by
  induction steps generalizing p with
  | nil => simp [scope]
  | cons s steps ih =>
    obtain ⟨node, step⟩ := s
    rw [scope, ih]
    simp [ScopePath.child, stepParts]

theorem path_parts (a : Activation) : a.path.parts = a.parts := by
  simp [path, ScopePath.child, scope_parts, parts]

theorem path_parts_ne_nil (a : Activation) : a.path.parts ≠ [] := by
  simp [path_parts, parts]

/-- The key of a wait's operation is the one the executor builds for it. -/
theorem key_start (a : Activation) :
    a.start.key = ((scope {} a.within).child a.id ["start"]).node "invoke" := by
  refine congrArg ScopePath.key (congrArg ScopePath.mk ?_)
  simp [start, scope_parts, ScopePath.child, stepParts, ScopeStep.segments]

theorem repr_injective {m n : Nat} (h : m.repr = n.repr) : m = n := by
  have hd := congrArg String.toList h
  rw [Nat.toList_repr, Nat.toList_repr] at hd
  rw [← @Nat.ofDigitChars_ten_toDigits m, hd, Nat.ofDigitChars_ten_toDigits]

/-- The tag of a step says how many segments follow it. -/
theorem segments_append {s t : ScopeStep} {x y : List String}
    (h : s.segments ++ x = t.segments ++ y) : s = t ∧ x = y := by
  cases s with
  | items i =>
    cases t with
    | items j =>
      simp only [ScopeStep.segments, List.cons_append, List.nil_append, List.cons.injEq] at h
      exact ⟨congrArg _ (repr_injective h.2.1), h.2.2⟩
    | _ => simp [ScopeStep.segments] at h
  | iterations i =>
    cases t with
    | iterations j =>
      simp only [ScopeStep.segments, List.cons_append, List.nil_append, List.cons.injEq] at h
      exact ⟨congrArg _ (repr_injective h.2.1), h.2.2⟩
    | _ => simp [ScopeStep.segments] at h
  | _ => cases t <;> simp_all [ScopeStep.segments]

/-- An activation whose path continues another one's is that activation or is inside it. -/
theorem eq_or_inside_of_prefix {a b : Activation} (h : a.parts <+: b.parts) :
    a = b ∨ b.Inside a := by
  obtain ⟨within, id⟩ := a
  obtain ⟨within', id'⟩ := b
  -- by induction on the enclosing nodes: the first one and the way into it agree
  induction within generalizing within' with
  | nil =>
    cases within' with
    | nil =>
      simp only [parts, List.flatMap_nil, List.nil_append, List.cons_prefix_cons] at h
      exact .inl (by rw [h.2.1])
    | cons s rest =>
      simp only [parts, stepParts, List.flatMap_nil, List.nil_append, List.flatMap_cons,
        List.cons_append, List.cons_prefix_cons] at h
      refine .inr ⟨s.2, rest, ?_⟩
      rw [h.2.1]
      rfl
  | cons s within ih =>
    cases within' with
    | nil =>
      have hlen := h.length_le
      simp [parts, stepParts] at hlen
    | cons s' rest =>
      obtain ⟨more, hmore⟩ := h
      obtain ⟨n, s⟩ := s
      obtain ⟨n', s'⟩ := s'
      simp only [parts, stepParts, List.flatMap_cons, List.cons_append, List.append_assoc,
        List.cons.injEq, true_and] at hmore
      obtain ⟨rfl, hmore⟩ := hmore
      obtain ⟨rfl, hmore⟩ := segments_append hmore
      have hstarts : (⟨within, id⟩ : Activation).parts <+: (⟨rest, id'⟩ : Activation).parts :=
        ⟨more, by simpa [parts] using hmore⟩
      rcases ih rest hstarts with heq | ⟨step, inner, hinner⟩
      · cases heq
        exact .inl rfl
      · exact .inr ⟨step, inner, congrArg _ hinner⟩

/-- The nodes inside an activation are the ones whose path strictly continues its path. -/
theorem inside_iff (a b : Activation) :
    b.Inside a ↔ a.parts <+: b.parts ∧ a.parts ≠ b.parts := by
  constructor
  · rintro ⟨step, rest, hwithin⟩
    have hparts : b.parts =
        a.parts ++ (step.segments ++ rest.flatMap stepParts ++ ["nodes", b.id]) := by
      simp [parts, hwithin, stepParts]
    refine ⟨hparts ▸ List.prefix_append _ _, fun h => ?_⟩
    rw [h] at hparts
    simp at hparts
  · rintro ⟨hstarts, hne⟩
    rcases eq_or_inside_of_prefix hstarts with rfl | hinside
    · exact absurd rfl hne
    · exact hinside

theorem parts_injective {a b : Activation} (h : a.parts = b.parts) : a = b := by
  have hstarts : a.parts <+: b.parts := h ▸ List.prefix_refl a.parts
  rcases eq_or_inside_of_prefix hstarts with heq | hinside
  · exact heq
  · exact absurd h ((inside_iff a b).mp hinside).2

/-- A key continues another one with a slash exactly where its activation is inside. -/
theorem key_startsWith_iff_inside (a b : Activation) :
    startsWith b.key (a.key ++ "/") = true ↔ b.Inside a := by
  rw [inside_iff, ← path_parts, ← path_parts]
  exact ScopePath.key_startsWith_iff a.path_parts_ne_nil b.path_parts_ne_nil

end Activation

/-! ## The ranges of the stores -/

/-- Distinct activations have distinct keys, a key decodes to its path, a key continues
another one with a slash exactly where the path strictly continues the other path, that is
where the activation is inside the other one, and the stores' ranges select the same keys. -/
theorem scope_paths_identify :
    (∀ a b : Activation, a.key = b.key → a = b) ∧
    (∀ a : Activation, Mapping.tokens a.key = .ok a.path.parts) ∧
    (∀ a b : Activation, startsWith b.key (a.key ++ "/") = true ↔
      a.path.parts <+: b.path.parts ∧ a.path.parts ≠ b.path.parts) ∧
    (∀ a b : Activation, startsWith b.key (a.key ++ "/") = true ↔ b.Inside a) ∧
    (∀ (a : Activation) (k : String),
      (a.key ++ "/" ≤ k ∧ k < a.key ++ "0") ↔ startsWith k (a.key ++ "/") = true) ∧
    (∀ (a : Activation) (r : MemoryExecutionStore.StoredRun),
      (r.view (some a.key)).unresolvedDescendants = true ↔
        ∃ k ∈ r.unresolved, startsWith k (a.key ++ "/") = true) ∧
    (∀ (a : Activation) (rows : BTreeMap String Sqlite.InvocationRow),
      Sqlite.Query.unresolvedBelow rows a.key = true ↔
        ∃ k row, rows[k]? = some row ∧ row.unresolved = true ∧
          startsWith k (a.key ++ "/") = true) := by
  -- "0" is the character after "/"
  have hrange : ∀ (p k : String),
      (p ++ "/" ≤ k ∧ k < p ++ "0") ↔ startsWith k (p ++ "/") = true := fun p k =>
    (prefix_slash_iff p k).symm.trans List.isPrefixOf_iff_prefix.symm
  refine ⟨fun a b h => ?_, fun a => ScopePath.tokens_key a.path a.path_parts_ne_nil,
    fun a b => ScopePath.key_startsWith_iff a.path_parts_ne_nil b.path_parts_ne_nil,
    Activation.key_startsWith_iff_inside, fun a k => hrange a.key k, fun a r => ?_,
    fun a rows => ?_⟩
  · refine Activation.parts_injective ?_
    rw [← Activation.path_parts, ← Activation.path_parts,
      ScopePath.key_injective a.path_parts_ne_nil b.path_parts_ne_nil h]
  -- the first key at or after the bound has the prefix, if any key has
  · have hfirst :=
      find?_prefix_iff (MemoryExecutionStore.StoredRun.toList_sorted r.unresolved) a.key
    simp only [← List.isPrefixOf_iff_prefix] at hfirst
    simp only [MemoryExecutionStore.StoredRun.view, startsWith]
    constructor
    · intro h
      split at h
      next k hk =>
        obtain ⟨key, hmem, hp⟩ := hfirst.mp ⟨k, hk, h⟩
        exact ⟨key, Std.ExtTreeSet.mem_toList.mp hmem, hp⟩
      next => cases h
    · rintro ⟨k, hk, hp⟩
      obtain ⟨first, hf, hp'⟩ := hfirst.mpr ⟨k, Std.ExtTreeSet.mem_toList.mpr hk, hp⟩
      rw [hf]
      exact hp'
  · rw [Sqlite.Query.unresolvedBelow, BTreeMap.any_iff]
    simp only [decide_eq_true_eq, hrange]

/-- Identifiers made of a tag and of separators stay apart from the tags and separators. -/
theorem scope_paths_identify_sample :
    let plain : Activation := ⟨[("a", .try)], "b/~c"⟩
    let odd : Activation := ⟨[], "a/try/nodes/b"⟩
    plain.key = "/nodes/a/try/nodes/b~1~0c" ∧ odd.key = "/nodes/a~1try~1nodes~1b" ∧
      plain.key ≠ odd.key ∧
        Mapping.tokens plain.key = .ok ["nodes", "a", "try", "nodes", "b/~c"] := by
  intro plain odd
  refine ⟨by decide +kernel, by decide +kernel, fun h => ?_, scope_paths_identify.2.1 plain⟩
  exact absurd (scope_paths_identify.1 plain odd h) (by decide)

end WorkflowForge.Engine
