import WorkflowForge.Lib.Schema
import WorkflowForge.Protocol.Definition

/-!
# The Published Schema

The schema of definitions that is published for authors, one definition for each of its
entries. What an integer has to be is left open, so that the same entries also say where the
integers of a document stand: `valid` is the schema itself, and `literalIntegers` is what an
author has to respect beyond it.

Bindings and bodies nest in each other. Their schemas carry a fuel that the size of a document
covers, and `binding_eq` and `node_eq` are the recursion that the schema writes as references.

## Main results

- `pointerPattern_iff`: the pattern of pointers, as the language it denotes.
- `binding_eq`, `node_eq`: the fuel is never what decides.
- `body_eq`: a body is a graph of nodes.
-/

namespace WorkflowForge.Published

open Lib Lib.Schema

/-! ## Pointers -/

/-- The characters that follow a slash: a tilde stands before `0` or `1` only. -/
def escaped : List Char → Bool
  | [] => true
  | '~' :: '0' :: cs => escaped cs
  | '~' :: '1' :: cs => escaped cs
  | '~' :: _ => false
  | _ :: cs => escaped cs

/-- The pattern of pointers. -/
def pointerPattern (pointer : String) : Bool :=
  match pointer.toList with
  | [] => true
  | '/' :: rest => escaped rest
  | _ => false

/-- The language of `[^~]|~[01]`. -/
def characters : Language Char :=
  {w | (∃ c, c ≠ '~' ∧ w = [c]) ∨ w = ['~', '0'] ∨ w = ['~', '1']}

open Computability in
/-- The language of `^(?:/(?:[^~]|~[01])*)*$`. -/
def pointerLanguage : Language Char :=
  (({['/']} : Language Char) * characters∗)∗

theorem escaped_cons {c : Char} (hc : c ≠ '~') (cs : List Char) :
    escaped (c :: cs) = escaped cs := by
  rw [escaped.eq_def]
  split
  all_goals simp_all

theorem escaped_append {as : List Char} (ha : escaped as = true) (bs : List Char) :
    escaped (as ++ bs) = escaped bs := by
  fun_induction escaped as with
  | case1 => rfl
  | case2 cs ih => exact ih ha
  | case3 cs ih => exact ih ha
  | case4 => nomatch ha
  | case5 c cs h0 h1 hc ih =>
    have hne : c ≠ '~' := fun heq => hc heq
    rw [List.cons_append, escaped_cons hne]
    exact ih ha

/-- A tilde is followed by `0` or `1` exactly in a sequence of the characters. -/
theorem escaped_iff {cs : List Char} :
    escaped cs = true ↔ ∃ ws : List (List Char), cs = ws.flatten ∧ ∀ w ∈ ws, w ∈ characters := by
  constructor
  · intro h
    fun_induction escaped cs with
    | case1 => exact ⟨[], rfl, fun w hw => nomatch hw⟩
    | case2 cs ih =>
      obtain ⟨ws, rfl, hws⟩ := ih h
      exact ⟨['~', '0'] :: ws, rfl, List.forall_mem_cons.mpr ⟨.inr (.inl rfl), hws⟩⟩
    | case3 cs ih =>
      obtain ⟨ws, rfl, hws⟩ := ih h
      exact ⟨['~', '1'] :: ws, rfl, List.forall_mem_cons.mpr ⟨.inr (.inr rfl), hws⟩⟩
    -- a tilde that escapes nothing
    | case4 => nomatch h
    | case5 c cs _ _ hc ih =>
      obtain ⟨ws, rfl, hws⟩ := ih h
      exact ⟨[c] :: ws, rfl, List.forall_mem_cons.mpr ⟨.inl ⟨c, fun heq => hc heq, rfl⟩, hws⟩⟩
  · rintro ⟨ws, rfl, hws⟩
    -- word by word
    induction ws with
    | nil => rfl
    | cons w ws ih =>
      obtain ⟨hw, hws⟩ := List.forall_mem_cons.mp hws
      have hw' : escaped w = true := by
        rcases hw with ⟨c, hc, rfl⟩ | rfl | rfl
        · rw [escaped_cons hc]
          rfl
        · rfl
        · rfl
      rw [List.flatten_cons, escaped_append hw']
      exact ih hws

/-- The test of pointers decides the language of their pattern. -/
theorem pointerPattern_iff (pointer : String) :
    pointerPattern pointer = true ↔ pointer.toList ∈ pointerLanguage := by
  unfold pointerPattern pointerLanguage
  rw [Language.mem_kstar]
  constructor
  · intro h
    split at h
    next heq => exact ⟨[], by rw [heq]; rfl, fun y hy => nomatch hy⟩
    next rest heq =>
      -- one slash is enough: those that follow are characters like others
      refine ⟨['/' :: rest], by rw [heq]; simp, List.forall_mem_singleton.mpr ?_⟩
      exact Language.mem_mul.mpr ⟨['/'], rfl, rest, Language.mem_kstar.mpr (escaped_iff.mp h), rfl⟩
    next => nomatch h
  · rintro ⟨ws, hws, hmem⟩
    have hescaped : ∀ w ∈ ws, escaped w = true ∧ w.head? = some '/' := by
      intro w hw
      obtain ⟨a, ha, b, hb, rfl⟩ := Language.mem_mul.mp (hmem w hw)
      obtain rfl : a = ['/'] := ha
      refine ⟨?_, rfl⟩
      change escaped ('/' :: b) = true
      rw [escaped_cons (by decide)]
      exact escaped_iff.mpr (Language.mem_kstar.mp hb)
    have hall : ∀ {ws : List (List Char)}, (∀ w ∈ ws, escaped w = true) →
        escaped ws.flatten = true := by
      intro ws hws
      induction ws with
      | nil => rfl
      | cons w ws ih =>
        obtain ⟨hw, hws⟩ := List.forall_mem_cons.mp hws
        rw [List.flatten_cons, escaped_append hw]
        exact ih hws
    rw [hws]
    cases ws with
    | nil => rfl
    | cons w ws =>
      obtain ⟨hw, hhead⟩ := hescaped w List.mem_cons_self
      have hwhole : escaped (w :: ws).flatten = true := hall fun w hw => (hescaped w hw).1
      cases w with
      | nil => nomatch hhead
      | cons c cs =>
        obtain rfl : c = '/' := Option.some.inj hhead
        change escaped ('/' :: (cs ++ ws.flatten)) = true at hwhole
        rw [escaped_cons (by decide)] at hwhole
        exact hwhole

/-! ## The entries of the schema -/

def identity : Schema := nonempty

/-- The entry `schema`: an object or a boolean. -/
def schema : Schema := fun v => anyObject v || boolean v

def operation : Schema :=
  record ["id", "contract", "implementation"]
    [("id", identity), ("contract", identity), ("implementation", identity)]

def edge : Schema :=
  record ["from", "to"] [("from", identity), ("to", identity)]

def workflow : Schema :=
  record ["id", "revision"] [("id", identity), ("revision", identity)]

def groupErrors : Schema := enumeration ["fail_fast", "collect"]

section Bindings

variable (binding : Schema)

/-- A selection names a node exactly when its source is a node. -/
def selection : Schema := allOf [
  record ["source", "pointer"]
    [("source", enumeration ["input", "node"]), ("node", identity),
     ("pointer", pattern pointerPattern), ("fallback", binding)],
  ifThenElse (properties [("source", constant "node")])
    (has ["node"])
    (excluded (has ["node"]))]

def bindings : List (String × Schema) :=
  [("literal", record ["literal"] [("literal", anything)]),
   ("select", record ["select"] [("select", selection binding)]),
   ("object", record ["object"] [("object", fields binding)]),
   ("array", record ["array"] [("array", items binding)])]

end Bindings

/-- Bindings with the levels of nesting that remain. -/
def bindingWithin : Nat → Schema
  | 0 => fun _ => false
  | n + 1 => oneOf ((bindings (bindingWithin n)).map Prod.snd)

def binding : Schema := fun v => bindingWithin v.size v

section Integers

/- What an integer field accepts, by the largest value of the field and the `minimum` of its
entry. -/
variable (integer : (most least : Nat) → Schema)

def retry : Schema :=
  record []
    [("max_attempts", integer (2 ^ 32 - 1) 1), ("initial_delay_ms", integer (2 ^ 64 - 1) 0),
     ("max_delay_ms", integer (2 ^ 64 - 1) 0), ("jitter", boolean)]

def concurrency : Schema := integer (2 ^ 64 - 1) 1

def signalStart : Schema :=
  record ["operation", "config", "input"]
    [("operation", operation), ("config", anything), ("input", binding),
     ("retry", retry integer)]

/-- What the entries of nodes have in common. -/
def nodeOf (kind : String) (needed : List String) (known : List (String × Schema)) : Schema :=
  record ("id" :: "kind" :: "input" :: needed)
    (("id", identity) :: ("kind", constant kind) :: ("input", binding) :: known)

def operationNode : Schema :=
  nodeOf "operation" ["operation", "config"]
    [("operation", operation), ("config", anything), ("retry", retry integer)]

def subworkflowNode : Schema :=
  nodeOf "subworkflow" ["workflow"] [("workflow", workflow)]

def timerNode : Schema :=
  nodeOf "timer" ["duration_ms"] [("duration_ms", integer (2 ^ 64 - 1) 0)]

def awaitSignalNode : Schema :=
  nodeOf "await_signal" ["correlation", "timeout_ms", "payload_schema"]
    [("correlation", binding), ("timeout_ms", integer (2 ^ 64 - 1) 1),
     ("payload_schema", schema), ("start", signalStart integer)]

section Bodies

variable (body : Schema)

/-- The entry `case`. -/
def decisionCase : Schema :=
  record ["id", "when", "body"] [("id", identity), ("when", binding), ("body", body)]

def errorCase : Schema :=
  record ["id", "code", "body"] [("id", identity), ("code", identity), ("body", body)]

def fallback : Schema :=
  record ["id", "body"] [("id", identity), ("body", body)]

def decisionNode : Schema :=
  nodeOf "decision" ["cases"] [("cases", items (decisionCase body)), ("fallback", fallback body)]

def branches : Schema := allOf [fields body, minProperties 1, propertyNames identity]

def parallelNode : Schema :=
  nodeOf "parallel" ["branches", "concurrency", "errors", "join"]
    [("branches", branches body), ("concurrency", concurrency integer),
     ("errors", groupErrors), ("join", constant "all")]

def foreachNode : Schema :=
  nodeOf "foreach" ["items", "body", "concurrency", "errors"]
    [("items", binding), ("body", body), ("concurrency", concurrency integer),
     ("errors", groupErrors)]

def loopNode : Schema :=
  nodeOf "loop" ["while", "body", "max_iterations", "on_limit"]
    [("while", binding), ("body", body), ("max_iterations", integer (2 ^ 64 - 1) 1),
     ("on_limit", enumeration ["fail", "return_last"])]

def tryNode : Schema :=
  nodeOf "try" ["body", "fallback"]
    [("body", body), ("catches", items (errorCase body)), ("fallback", fallback body)]

/-- The entry `node`, by the kind of each alternative. -/
def nodes : List (String × Schema) :=
  [("operation", operationNode integer), ("decision", decisionNode body),
   ("parallel", parallelNode integer body), ("foreach", foreachNode integer body),
   ("loop", loopNode integer body), ("subworkflow", subworkflowNode),
   ("timer", timerNode integer), ("await_signal", awaitSignalNode integer),
   ("try", tryNode body)]

def nodeWith : Schema := oneOf ((nodes integer body).map Prod.snd)

/-- The parts that a body and a definition have in common. -/
def graph (node : Schema) : List (String × Schema) :=
  [("entry", identity), ("nodes", allOf [items node, minItems 1]),
   ("edges", allOf [items edge, uniqueItems]), ("output", binding)]

end Bodies

/-- Bodies with the levels of nesting that remain. -/
def bodyWithin : Nat → Schema
  | 0 => fun _ => false
  | n + 1 =>
    record ["entry", "nodes", "edges", "output"] (graph (nodeWith integer (bodyWithin n)))

def body : Schema := fun v => bodyWithin integer v.size v

def node : Schema := fun v => nodeWith integer (bodyWithin integer v.size) v

/-- The schema of definitions. -/
def definition : Schema :=
  record
    ["format", "id", "revision", "schema_dialect", "input_schema", "output_schema", "entry",
     "nodes", "edges", "output"]
    ([("format", constant "forge.workflow/2"), ("id", identity), ("revision", identity),
      ("schema_dialect", constant "https://json-schema.org/draft/2020-12/schema"),
      ("input_schema", schema), ("output_schema", schema)]
      ++ graph (node integer) ++ [("presentation", anyObject)])

end Integers

/-- `"type": "integer"` with a `minimum`. Which integer a float is, if it is one, is what the
validator answers. -/
def integerAtLeast (integral : String → Option Int) (_most least : Nat) : Schema
  | .number (.posInt n) => least ≤ n
  | .number (.negInt n) => (least : Int) ≤ n.toInt
  | .number (.float text) => (integral text).any fun n => decide ((least : Int) ≤ n)
  | _ => false

/-- An integer literal in the range of its field. -/
def literalUpTo (most _least : Nat) : Schema
  | .number (.posInt n) => n ≤ most
  | _ => false

/-- The document is valid under the published schema. -/
def valid (integral : String → Option Int) : Schema :=
  definition (integerAtLeast integral)

/-- The integers of a valid document are literals in the range of their fields. -/
def literalIntegers : Schema :=
  definition literalUpTo

/-! ## Nesting -/

theorem bindings_agree {n : Nat} {s t : Schema} (h : Agree n s t) :
    AgreeOn (n + 1) (bindings s) (bindings t) := by
  have hselection : Agree (n + 1) (selection s) (selection t) := by
    refine Agree.allOf (.cons ?_ (.cons .rfl .nil))
    exact Agree.record (.same (.same (.same (.cons h .nil)))) _
  have hone : ∀ {k : String} {a b : Schema}, Agree (n + 1) a b →
      Agree (n + 1) (record [k] [(k, a)]) (record [k] [(k, b)]) :=
    fun hab => (Agree.record (.cons hab .nil) _).mono (by omega)
  exact .same (.cons (hone hselection) (.cons (hone h.fields)
    (.cons (hone h.items) .nil)))

/-- Beyond the size of a document more levels change nothing. -/
theorem bindingWithin_agree {k n m : Nat} (hn : k ≤ n) (hm : k ≤ m) :
    Agree k (bindingWithin n) (bindingWithin m) := by
  induction k generalizing n m with
  | zero =>
    intro v hv
    have : 0 < v.size := by cases v <;> simp only [Value.size] <;> omega
    omega
  | succ k ih =>
    obtain ⟨n, rfl⟩ : ∃ l, n = l + 1 := ⟨n - 1, by omega⟩
    obtain ⟨m, rfl⟩ : ∃ l, m = l + 1 := ⟨m - 1, by omega⟩
    exact Agree.oneOf (bindings_agree (ih (by omega) (by omega))).schemas

/-- A binding is one of its alternatives, whose parts are bindings. -/
theorem binding_eq (v : Value) : binding v = oneOf ((bindings binding).map Prod.snd) v := by
  have hagree : Agree v.size (bindingWithin v.size) binding :=
    fun w hw => bindingWithin_agree hw le_rfl w le_rfl
  calc binding v = bindingWithin (v.size + 1) v :=
        bindingWithin_agree le_rfl (by omega) v le_rfl
    _ = oneOf ((bindings binding).map Prod.snd) v :=
        Agree.oneOf (bindings_agree hagree).schemas v (by omega)

section Nesting

variable (integer : (most least : Nat) → Schema)

theorem nodeOf_agree {n : Nat} {known known' : List (String × Schema)}
    (h : AgreeOn n known known') (kind : String) (needed : List String) :
    Agree (n + 1) (nodeOf kind needed known) (nodeOf kind needed known') :=
  Agree.record (.same (.same (.same h))) _

theorem nodeWith_agree {n : Nat} {s t : Schema} (h : Agree n s t) :
    Agree (n + 1) (nodeWith integer s) (nodeWith integer t) := by
  -- nested bodies are read one level deeper, everything else alike
  have hcase : Agree n (decisionCase s) (decisionCase t) :=
    (Agree.record (.same (.same (.cons h .nil))) _).mono (Nat.le_succ n)
  have herror : Agree n (errorCase s) (errorCase t) :=
    (Agree.record (.same (.same (.cons h .nil))) _).mono (Nat.le_succ n)
  have hfallback : Agree n (fallback s) (fallback t) :=
    (Agree.record (.same (.cons h .nil)) _).mono (Nat.le_succ n)
  have hbranches : Agree n (branches s) (branches t) :=
    Agree.allOf (.cons (h.fields.mono (Nat.le_succ n)) (.cons .rfl (.cons .rfl .nil)))
  have hdecision : Agree (n + 1) (decisionNode s) (decisionNode t) :=
    nodeOf_agree (.cons (hcase.items.mono (Nat.le_succ n)) (.cons hfallback .nil)) _ _
  have hparallel : Agree (n + 1) (parallelNode integer s) (parallelNode integer t) :=
    nodeOf_agree (.cons hbranches (.same (.same (.same .nil)))) _ _
  have hforeach : Agree (n + 1) (foreachNode integer s) (foreachNode integer t) :=
    nodeOf_agree (.same (.cons h (.same (.same .nil)))) _ _
  have hloop : Agree (n + 1) (loopNode integer s) (loopNode integer t) :=
    nodeOf_agree (.same (.cons h (.same (.same .nil)))) _ _
  have htry : Agree (n + 1) (tryNode s) (tryNode t) :=
    nodeOf_agree (.cons h (.cons (herror.items.mono (Nat.le_succ n))
      (.cons hfallback .nil))) _ _
  exact Agree.oneOf (.cons .rfl (.cons hdecision (.cons hparallel (.cons hforeach (.cons hloop
    (.cons .rfl (.cons .rfl (.cons .rfl (.cons htry .nil)))))))))

theorem bodyWithin_agree {k n m : Nat} (hn : k ≤ n) (hm : k ≤ m) :
    Agree k (bodyWithin integer n) (bodyWithin integer m) := by
  induction k generalizing n m with
  | zero =>
    intro v hv
    have : 0 < v.size := by cases v <;> simp only [Value.size] <;> omega
    omega
  | succ k ih =>
    obtain ⟨n, rfl⟩ : ∃ l, n = l + 1 := ⟨n - 1, by omega⟩
    obtain ⟨m, rfl⟩ : ∃ l, m = l + 1 := ⟨m - 1, by omega⟩
    have hnodes := nodeWith_agree integer (ih (n := n) (m := m) (by omega) (by omega))
    have hgraph : AgreeOn (k + 1) (graph (nodeWith integer (bodyWithin integer n)))
        (graph (nodeWith integer (bodyWithin integer m))) :=
      .same (.cons (Agree.allOf (.cons (hnodes.items.mono (by omega))
        (.cons .rfl .nil))) (.same (.same .nil)))
    exact (Agree.record hgraph _).mono (by omega)

/-- A node is one of its alternatives, whose bodies are bodies. -/
theorem node_eq (v : Value) : node integer v = nodeWith integer (body integer) v := by
  have hagree : Agree v.size (bodyWithin integer v.size) (body integer) :=
    fun w hw => bodyWithin_agree integer hw le_rfl w le_rfl
  exact nodeWith_agree integer hagree v (by omega)

/-- A body is a graph of nodes. -/
theorem body_eq (v : Value) : body integer v =
    record ["entry", "nodes", "edges", "output"] (graph (node integer)) v := by
  have hagree : Agree v.size (nodeWith integer (bodyWithin integer v.size)) (node integer) := by
    intro w hw
    refine nodeWith_agree integer (bodyWithin_agree integer hw le_rfl) w (by omega)
  calc body integer v = bodyWithin integer (v.size + 1) v :=
        bodyWithin_agree integer le_rfl (by omega) v le_rfl
    _ = record ["entry", "nodes", "edges", "output"] (graph (node integer)) v := by
        refine Agree.record (n := v.size) ?_ _ v (by omega)
        exact .same (.cons (Agree.allOf (.cons (hagree.items.mono (by omega))
          (.cons .rfl .nil))) (.same (.same .nil)))

end Nesting

end WorkflowForge.Published
