/-
The passes of a loop over a collection.

A loop over a collection has its items before the first pass. Its body may do
what it likes to the collection and to the loop variable: at the start of each
pass the variable is bound to the next of these items, and all of them come to
their turn unless a pass does not fall through (`Course.bound_items`).
`Snapshot` says what the items of a value are, and `collection_visits` puts both
together for whole loops.
-/
import Guion.Proofs.Run.Ranges
import Guion.Proofs.Run.Stack
import Guion.Proofs.Run.Standard

namespace Guion

namespace State

theorem local?_bindLoopVariable_self {s : State} (opened : s.scopes ≠ []) (name : String) (value : Value) :
    local? name (s.bindLoopVariable name value).scopes = some value := by
  unfold bindLoopVariable
  split
  · next found => exact local?_setLocal_self value found
  · unfold defineLocal
    split
    · next hs => simp [local?, Entries.get?_insert_self]
    · next hs => exact absurd hs opened

theorem opened_bindLoopVariable {s : State} (opened : s.scopes ≠ []) (name : String) (value : Value) :
    (s.bindLoopVariable name value).scopes ≠ [] :=
  (kept_level.change (.bindLoop name value)).opened opened

end State

namespace Evaluator

variable {env : Environment} {body : Block}

/-- Behind a block there is a scope if there was one before it. -/
theorem opened_of_block {n : Nat} {t u : State} {flow : Flow} (opened : t.scopes ≠ [])
    (h : (within n).block env body t = .ok flow u) : u.scopes ≠ [] := by
  have level := (State.kept_level.within n).block State.kept_level.executable env body t
  rw [State.keeping, Run.after_ok h] at level
  exact level.opened opened

/-! ## The items of a value -/

/-- Whether a value is an object that a loop opens: it gives items of its own. -/
def iterates : Value → Bool
  | .object _ _ _ .single => false
  | .object .. => true
  | _ => false

/-- The items that a loop over a value visits. -/
inductive Snapshot : Value → List Value → Prop
  | text {s} : Snapshot (.text s) (s.toList.map .character)
  | string {s} : Snapshot (.string s) (s.toList.map .character)
  | list {items} : Snapshot (.list items) items
  | matrix {rows} : Snapshot (.matrix rows) (rows.map .list)
  /-- The keys of a dictionary, in ascending order. -/
  | dictionary {entries : Entries Value} {keys : List String}
      (all : ∀ key, key ∈ keys ↔ Entries.contains key entries = true) (ascending : keys.Pairwise (· < ·)) :
      Snapshot (.dictionary entries) (keys.map .string)
  | single {v} (kind : v.kind ∉ [.text, .string, .list, .matrix, .dictionary]) : Snapshot v [v]

theorem snapshot_itemsOf {v : Value} (plain : iterates v = false)
    (sorted : ∀ entries, v = .dictionary entries → Entries.Ascending entries) : Snapshot v (itemsOf v) := by
  cases v with
  | text s => exact .text
  | string s => exact .string
  | list items => exact .list
  | matrix rows => exact .matrix
  | dictionary entries =>
    have items : itemsOf (.dictionary entries) = (entries.map Prod.fst).map .string := by
      rw [itemsOf, List.map_map]
      rfl
    rw [items]
    exact .dictionary (fun key => Entries.mem_keys_iff) (List.pairwise_map.mpr (sorted entries rfl))
  | _ => exact .single (by simp [Value.kind])

/-- A loop over a value that is not opened starts with its items. -/
theorem forStart_collection {ev : Evaluator} {name : String} {e : Expr} {line : Nat} {s t : State}
    {v collection : Value} (evaluates : ev.eval env e s = .ok v t) (follows : t.follow v line = .ok collection)
    (plain : iterates collection = false) :
    ev.forStart env name (.collection e) line s = .ok (.nothing, .overItems name (itemsOf collection)) t := by
  refine (Run.bind_ok evaluates).trans ((Run.bind_ok (Run.read_ok follows)).trans ?_)
  cases collection with
  | object identity type description contents =>
    cases contents with
    | single => rfl
    | _ => cases plain
  | _ => rfl

/-! ## Passes over items -/

/-- What a variable is bound to in some states. -/
def boundIn (name : String) (ts : List State) : List (Option Value) :=
  ts.map fun t => State.local? name t.scopes

/-- At the starts of the passes the loop variable is bound to the items, one after the
other, and to all of them unless the last pass does not fall through. -/
theorem Course.bound_items {n : Nat} {name : String} {items : List Value} {s : State} {ts : List State}
    {r : EStateM.Result (Halt RuntimeError) State Flow} (opened : s.scopes ≠ [])
    (h : Course (within n) env body (.overItems name items) s ts r) :
    boundIn name ts <+: items.map some ∧
      (boundIn name ts = items.map some ∨
        ∃ last ∈ ts.getLast?, ∀ u, (within n).block env body last ≠ .ok .proceed u) := by
  induction items generalizing s ts with
  | nil =>
    cases h with
    | ends => exact ⟨List.prefix_rfl, .inl rfl⟩
    | fails => exact ⟨List.nil_prefix, .inl rfl⟩
    | falls begins => cases begins
    | leaves begins => cases begins
  | cons item rest ih =>
    have bound := State.local?_bindLoopVariable_self opened name item
    cases h with
    | ends ended => cases ended
    | fails failed => cases failed
    | leaves begins stays =>
      cases begins
      refine ⟨?_, .inr ⟨_, rfl, stays⟩⟩
      rw [boundIn, List.map_singleton, bound, List.map_cons]
      exact List.cons_prefix_cons.mpr ⟨rfl, List.nil_prefix⟩
    | falls begins fallen others =>
      rename_i ts
      cases begins
      obtain ⟨front, whole⟩ := ih (opened_of_block (State.opened_bindLoopVariable opened name item) fallen) others
      rw [boundIn, List.map_cons, List.map_cons, bound]
      refine ⟨List.cons_prefix_cons.mpr ⟨rfl, front⟩, whole.imp (congrArg _) ?_⟩
      rintro ⟨last, hl, stays⟩
      refine ⟨last, ?_, stays⟩
      cases ts with
      | nil => cases hl
      | cons t ts => rwa [List.getLast?_cons_cons]

/-- What runs inside a loop, with the loop counted for so long. -/
theorem inLoop_eq (loop : Eval α) (s : State) :
    inLoop loop s = Run.endIn (fun t => { t with loopDepth := t.loopDepth - 1 })
      (loop { s with loopDepth := s.loopDepth + 1 }) := by
  unfold inLoop Run.bracket
  cases loop { s with loopDepth := s.loopDepth + 1 } <;> rfl

/-- **A loop over a collection visits its items as they were before the first pass.**
The source gives a value once, which is followed if it is a pointer. The items are
those of what it leads to, whatever the body does: the loop variable is bound to them,
in this order, at the starts of the passes, and to every one of them unless the last
pass did not fall through. There are no other passes, and the statement ends as they
do. A dictionary is a map here, with its entries in the order of their keys, as it is
all along a run (`ascending_of_follow`). -/
theorem collection_visits (n : Nat) {env : Environment} (builtin : env.handlers = Handler.builtin) (name : String)
    (e : Expr) (body : Block) (line : Nat) {s s₀ : State} {v collection : Value} (opened : s.scopes ≠ [])
    (evaluates : (within n).eval env e { s with loopDepth := s.loopDepth + 1 } = .ok v s₀)
    (follows : s₀.follow v line = .ok collection) (plain : iterates collection = false)
    (sorted : ∀ entries, collection = .dictionary entries → Entries.Ascending entries) :
    ∃ items ts r, Snapshot collection items ∧ Course (within n) env body (.overItems name items) s₀ ts r ∧
      (∀ u, Turns (within n) env body (.overItems name items) s₀ u ↔ u ∈ ts) ∧
      boundIn name ts <+: items.map some ∧
      (boundIn name ts = items.map some ∨
        ∃ last ∈ ts.getLast?, ∀ u, (within n).block env body last ≠ .ok .proceed u) ∧
      (within (n + 1)).exec env (.forLoop name (.collection e) body line) s =
        Run.endIn (fun t => { t with loopDepth := t.loopDepth - 1 }) r := by
  have opened₀ : s₀.scopes ≠ [] := by
    have level := (State.kept_level.within n).eval env e { s with loopDepth := s.loopDepth + 1 }
    rw [State.keeping, Run.after_ok evaluates] at level
    exact level.opened opened
  obtain ⟨ts, r, course⟩ := exists_course (within n) env body (.overItems name (itemsOf collection)) s₀
  obtain ⟨front, whole⟩ := course.bound_items opened₀
  refine ⟨_, ts, r, snapshot_itemsOf plain sorted, course, fun u => course.turns_iff, front, whole, ?_⟩
  show (within n).statement env _ s = _
  rw [statement_forLoop builtin, forLoop_eq, inLoop_eq,
    Run.bind_ok (forStart_collection evaluates follows plain)]
  exact congrArg _ course.run_eq

/-- A body that adds the items up, empties the list and overwrites the loop variable. -/
theorem collection_visits_emptied :
    let items : List Value := [.integer 1, .integer 2, .integer 3]
    let s : State := { scopes := [[("l", .list items), ("n", .integer 0)]] }
    let body : Block := .mk
      [.assignment (.variable "n") (.binary (.variable "n" 2) .add (.variable "i" 2) 2) 2,
        .assignment (.variable "l") (.list [] 3) 3,
        .assignment (.variable "i") (.literal (.integer 9) 4) 4] 1
    let loop : Statement := .forLoop "i" (.collection (.variable "l" 1)) body 1
    ∃ ts r t, Course (within 7) {} body (.overItems "i" items) { s with loopDepth := 1 } ts r ∧
      boundIn "i" ts <+: items.map some ∧
      (within 8).exec {} loop s = .ok .proceed t ∧
      ["n", "l", "i"].map (fun name => (t.lookup name).map Value.display) = [some "6", some "[]", some "9"] := by
  intro items s body loop
  have evaluates : (within 7).eval {} (.variable "l" 1) { s with loopDepth := s.loopDepth + 1 } =
      .ok (.list items) { s with loopDepth := s.loopDepth + 1 } := rfl
  obtain ⟨seen, ts, r, snapshot, course, -, front, -, ends⟩ :=
    collection_visits 7 rfl "i" (.variable "l" 1) body 1 (List.cons_ne_nil _ _) evaluates rfl rfl nofun
  obtain rfl : items = seen := by
    cases snapshot with
    | list => rfl
    | single kind => exact absurd (by decide) kind
  obtain ⟨flow, t, finished, proceeds⟩ := Run.exists_of_yields (show Run.yields Flow.proceeds
    ((within 8).exec {} loop) s = true by decide +kernel)
  have left : ["n", "l", "i"].map (fun name => ((((within 8).exec {} loop).after s).lookup name).map Value.display) =
      [some "6", some "[]", some "9"] := by decide +kernel
  rw [Run.after_ok finished] at left
  cases flow with
  | proceed => exact ⟨ts, r, t, course, front, finished, left⟩
  | _ => cases proceeds

end Evaluator
end Guion
