/-
What a program leaves behind when it ends.

Every store of a state is a map: no write puts a name in twice (`kept_order`).
And scopes are closed in the order in which they are opened, so at the end of
a program the frame is its only scope (`finished_of_program`).

The bindings that a program reports are the four stores, one laid over the
other: the symbols, the globals, the frame, the constants. A name is looked up
in the same stores, from the last to the first. Each of the two orders is
written down by itself; for maps and a single scope they give the same
(`visible_eq_lookup`).
-/
import Guion.Proofs.Entries
import Guion.Proofs.Run.Flows
import Guion.Proofs.Run.Mirror
import Guion.Run.Session

namespace Guion

open Evaluator

/-! ## Stores are maps -/

/-- Every scope has every name once. -/
def Sorted (scopes : List Scope) : Prop := ∀ scope ∈ scopes, Entries.Ascending scope

namespace Sorted

variable {scopes : List Scope}

theorem setLocal (h : Sorted scopes) (name : String) (value : Value) : Sorted (State.setLocal name value scopes) :=
  State.forall_setLocal (fun _ here => here.insert name value) h

theorem eraseLocal (h : Sorted scopes) (name : String) : Sorted (State.eraseLocal name scopes) :=
  State.forall_eraseLocal (fun _ here => here.erase name) h

theorem defineInFrame (h : Sorted scopes) (name : String) (value : Value) :
    Sorted (State.defineInFrame name value scopes) :=
  State.forall_defineInFrame (fun _ here => here.insert name value) h

theorem defineLocal {s : State} (h : Sorted s.scopes) (name : String) (value : Value) :
    Sorted (s.defineLocal name value).scopes :=
  State.forall_defineLocal (fun _ here => here.insert name value) h

theorem bindLoopVariable {s : State} (h : Sorted s.scopes) (name : String) (value : Value) :
    Sorted (s.bindLoopVariable name value).scopes :=
  State.forall_bindLoopVariable (fun _ here => here.insert name value) h

theorem popScope {s : State} (h : Sorted s.scopes) : Sorted s.popScope.scopes := State.forall_popScope h

end Sorted

namespace State

/-- Each store that was a map before is one behind, whatever the others are. -/
structure KeepsOrder (s t : State) : Prop where
  scopes : Sorted s.scopes → Sorted t.scopes
  constants : Entries.Ascending s.constants → Entries.Ascending t.constants
  globals : Entries.Ascending s.globals → Entries.Ascending t.globals
  symbols : Entries.Ascending s.registry.symbols → Entries.Ascending t.registry.symbols

theorem KeepsOrder.refl (s : State) : KeepsOrder s s := ⟨id, id, id, id⟩

/-- A symbol that follows a variable is put into a map. -/
theorem ascending_published {s : State} (h : Entries.Ascending s.registry.symbols) (name : String) (value : Value) :
    Entries.Ascending (s.published name value).symbols := by
  unfold published
  split
  · exact h.insert name value
  · exact h

theorem Effect.keepsOrder {s t : State} (h : Effect s t) : KeepsOrder s t := by
  cases h with
  | print line => exact { KeepsOrder.refl s with }
  | identity => exact { KeepsOrder.refl s with }
  | @delete _ name line value h =>
    rw [delete_eq_ok h]
    exact { KeepsOrder.refl s with
      scopes := fun hs => hs.eraseLocal name
      globals := fun hg => hg.erase name
      symbols := fun hr => hr.erase name }
  | @assign _ name value line h =>
    cases assigned_of_assignVariable h with
    | @«local» slot stored =>
      exact { KeepsOrder.refl s with
        scopes := fun hs => hs.setLocal name stored
        symbols := fun hr => ascending_published hr name stored }
    | @global slot stored => exact { KeepsOrder.refl s with globals := fun hg => hg.insert name stored }
    | @«symbol» stored registry free unshared kept =>
      obtain ⟨rfl, -⟩ := Registry.modify_eq_ok kept
      exact { KeepsOrder.refl s with symbols := fun hr => hr.insert name stored }
    | new => exact { KeepsOrder.refl s with scopes := fun hs => hs.defineInFrame name value }

theorem Change.keepsOrder {s t : State} (h : Change s t) : KeepsOrder s t := by
  cases h with
  | effect h => exact h.keepsOrder
  | define h => rw [defineFunction_eq_ok h]; exact { KeepsOrder.refl s with }
  | merge own => exact { KeepsOrder.refl s with globals := fun hg => hg.override own }
  | bindLoop name value =>
    have sorted := fun (hs : Sorted s.scopes) => hs.bindLoopVariable name value
    obtain ⟨scopes, he, -⟩ := bindLoopVariable_eq name value s
    rw [he] at sorted ⊢
    exact { KeepsOrder.refl s with scopes := sorted }
  | @declare _ scope type initial line name h =>
    cases declared_of_declareName h with
    | «local» value =>
      have sorted := fun (hs : Sorted s.scopes) => hs.defineLocal name value
      obtain ⟨scopes, he, -⟩ := defineLocal_eq name value s
      rw [he] at sorted ⊢
      exact { KeepsOrder.refl s with scopes := sorted }
    | @«variable» value stored registry outside kept =>
      obtain ⟨rfl, -⟩ := Registry.redeclare_eq_ok kept
      have sorted := fun (hs : Sorted s.scopes) =>
        Sorted.defineLocal (s := { s with registry := s.registry.put name stored }) hs name stored
      obtain ⟨scopes, he, -⟩ := defineLocal_eq name stored { s with registry := s.registry.put name stored }
      rw [he] at sorted ⊢
      exact { KeepsOrder.refl s with scopes := sorted, symbols := fun hr => hr.insert name stored }
    | global value => exact { KeepsOrder.refl s with globals := fun hg => hg.insert name value }
    | constant value free => exact { KeepsOrder.refl s with constants := fun hc => hc.insert name value }

/-- The frame of a call may be anything: the stores are followed one by one, and
the scopes of the caller come back as they were. -/
theorem kept_order : Kept KeepsOrder where
  refl := KeepsOrder.refl
  trans h h' :=
    ⟨fun hs => h'.scopes (h.scopes hs), fun hc => h'.constants (h.constants hc),
      fun hg => h'.globals (h.globals hg), fun hr => h'.symbols (h.symbols hr)⟩
  change := Change.keepsOrder
  enclose {s t _ _} he h := by
    cases he with
    | block =>
      have scopes := fun (hs : Sorted s.scopes) =>
        (h.scopes (List.forall_mem_cons.mpr ⟨List.Pairwise.nil, hs⟩)).popScope
      obtain ⟨rest, hp, -⟩ := popScope_eq t
      show s.KeepsOrder t.popScope
      rw [hp] at scopes ⊢
      exact ⟨scopes, h.constants, h.globals, h.symbols⟩
    | call frame => exact ⟨id, h.constants, h.globals, h.symbols⟩
    | _ => exact ⟨h.scopes, h.constants, h.globals, h.symbols⟩
  program _ h := ⟨id, id, h.globals, h.symbols⟩

end State

/-! ## Finished programs -/

/-- The context of a program that has ended: the frame is the only scope, and
what it defined are maps. -/
structure Context.Finished (context : Context) : Prop where
  scopes : context.scopes = [context.frame]
  frame : Entries.Ascending context.frame
  constants : Entries.Ascending context.constants

theorem Run.inContext_eq_ok {context final : Context} {x : Run ε Unit} {s t : State}
    (h : Run.inContext context x s = .ok final t) :
    ∃ u, x { s with toContext := context } = .ok () u ∧ final = u.toContext ∧
      t = { u with toContext := s.toContext } := by
  unfold inContext at h
  cases hx : x { s with toContext := context } with
  | error halt u => rw [hx] at h; cases h
  | ok _ u => rw [hx] at h; cases h; exact ⟨u, rfl, rfl, rfl⟩

/-- A program ends in the context that its top-level statements end in. -/
theorem Evaluator.program_eq_ok {ev : Evaluator} {env : Environment} {source : String} {origin : Option String}
    {arguments : List Value} {depth : Nat} {s t : State} {context : Context}
    (h : ev.program env source origin arguments depth s = .ok context t) :
    ∃ sts u, ev.topLevel { env with invoker := .programs origin depth } origin depth sts
        { s with toContext := .initial arguments } = .ok () u ∧
      context = u.toContext ∧ t = { u with toContext := s.toContext } := by
  obtain ⟨program, s', parsed, runs⟩ := Run.bind_eq_ok.mp h
  obtain rfl : s' = s := by rw [← Run.after_ok parsed, after_parseProgram]
  exact ⟨program.statements, Run.inContext_eq_ok runs⟩

/-- **At the end of a program the frame is its only scope**, and its stores are
maps. -/
theorem Evaluator.finished_of_program {n : Nat} {env : Environment} {source : String} {origin : Option String}
    {arguments : List Value} {depth : Nat} {s t : State} {context : Context}
    (h : (within n).program env source origin arguments depth s = .ok context t) :
    context.Finished ∧ State.KeepsOrder s t := by
  obtain ⟨sts, u, runs, rfl, rfl⟩ := program_eq_ok h
  have order := (Related.topLevel State.kept_order.executable (State.kept_order.within n) _ origin depth sts _).of_ok runs
  have level := (Related.topLevel State.kept_level.executable (State.kept_level.within n) _ origin depth sts _).of_ok runs
  have sorted : Sorted u.scopes :=
    order.scopes (List.forall_mem_cons.mpr ⟨List.pairwise_singleton _ _, fun _ h => absurd h List.not_mem_nil⟩)
  have one : u.scopes.length = 1 := level.scopes (List.cons_ne_nil _ _)
  obtain ⟨frame, hs⟩ := List.length_eq_one_iff.mp one
  have only : u.toContext.frame = frame := by rw [Context.frame, hs]; rfl
  refine ⟨⟨by rw [only]; exact hs, ?_, order.constants .nil⟩, ⟨id, id, order.globals, order.symbols⟩⟩
  rw [only]
  exact sorted frame (hs ▸ List.mem_singleton.mpr rfl)

/-! ## Reports -/

namespace State

/-- The stores of a lookup, in their order. -/
theorem lookup_eq_or (name : String) (s : State) :
    s.lookup name = (Entries.get? name s.constants).or ((local? name s.scopes).or
      ((Entries.get? name s.globals).or (s.registry.get? name))) := by
  unfold lookup
  cases Entries.get? name s.constants with
  | some value => rfl
  | none =>
    cases local? name s.scopes with
    | some value => rfl
    | none => cases Entries.get? name s.globals <;> rfl

theorem local?_singleton (name : String) (frame : Scope) : local? name [frame] = Entries.get? name frame := by
  unfold local?
  cases Entries.get? name frame <;> rfl

end State

/-- What a program defined, in the order of a lookup. -/
theorem Context.Finished.get?_bindings {context : Context} (h : context.Finished) (name : String) :
    Entries.get? name context.bindings =
      (Entries.get? name context.constants).or (Entries.get? name context.frame) :=
  Entries.get?_override name context.frame h.constants

/-- Under every name stands what a lookup in the finished context reads. -/
theorem State.visible_eq_lookup {context : Context} (h : context.Finished) {s : State}
    (globals : Entries.Ascending s.globals) (name : String) :
    Entries.get? name (s.visible context) = State.lookup name { s with toContext := context } := by
  have bindings : Entries.Ascending context.bindings := h.frame.override context.constants
  rw [visible, Entries.get?_override name _ bindings, Entries.get?_override name _ globals, h.get?_bindings,
    lookup_eq_or, h.scopes, local?_singleton, Option.or_assoc]
  rfl

namespace Session

/-- The stores that programs share are maps. -/
structure Orderly (session : Session) : Prop where
  globals : Entries.Ascending session.world.globals
  symbols : Entries.Ascending session.world.registry.symbols

/-- A session starts with maps if its configuration has one. -/
theorem orderly_start {config : Config} (h : Entries.Ascending config.presets) (files : Files) :
    (start config files).Orderly :=
  ⟨h.mapValues Value.ofJson, .nil⟩

/-- The state in which a session runs a program. -/
def state (session : Session) : State := { toWorld := session.world, toContext := {} }

/-- A program of a session ended in a context, and reported each name that can
be read there, with the displayed form of what is read. -/
structure Reports (session : Session) (source : String) (origin : Option String) (arguments : List Value)
    (bindings : Entries String) (after : Session) (context : Context) : Prop where
  ended : ∃ t, Evaluator.standard.program session.env source origin arguments 0 session.state = .ok context t ∧
    after = { session with world := t.toWorld }
  frame : context.scopes = [context.frame]
  ascending : Entries.Ascending bindings
  reads : ∀ name, Entries.get? name bindings =
    (State.lookup name { toWorld := after.world, toContext := context }).map Value.display

theorem run_eq_ok {session after : Session} {computation : Run ProgramError (Entries String)}
    {bindings : Entries String} (h : session.run computation = (.ok bindings, after)) :
    ∃ t, computation session.state = .ok bindings t ∧ after = { session with world := t.toWorld } := by
  unfold run at h
  cases hc : computation session.state with
  | ok found t =>
    unfold state at hc
    rw [hc] at h
    cases h
    exact ⟨t, rfl, rfl⟩
  | error halt t =>
    unfold state at hc
    rw [hc] at h
    cases h

/-- The report of a program that ended. -/
theorem reports_of_program {session : Session} {source : String} {origin : Option String} {arguments : List Value}
    {context : Context} {t : State} (orderly : session.Orderly)
    (h : Evaluator.standard.program session.env source origin arguments 0 session.state = .ok context t) :
    session.Reports source origin arguments (Entries.mapValues Value.display (t.visible context))
      { session with world := t.toWorld } context := by
  obtain ⟨finished, order⟩ := finished_of_program h
  have globals : Entries.Ascending t.globals := order.globals orderly.globals
  have symbols : Entries.Ascending t.registry.symbols := order.symbols orderly.symbols
  refine ⟨⟨t, h, rfl⟩, finished.scopes, ?_, fun name => ?_⟩
  · exact ((symbols.override t.globals).override context.bindings).mapValues Value.display
  · rw [Entries.get?_mapValues, State.visible_eq_lookup finished globals]

/-- A session goes on with maps, however the program ended. -/
theorem Orderly.run {session : Session} (orderly : session.Orderly) {program : Run ProgramError Context}
    (h : State.keeping State.KeepsOrder session.state program program) :
    (session.run (report program)).2.Orderly := by
  have rules := State.kept_order.executable
  have reported : State.keeping State.KeepsOrder session.state (report program) (report program) :=
    rules.bind h fun context t _ => rules.get (rules.pure _)
  unfold Session.run
  unfold State.keeping Run.after state at reported
  cases hr : report program { toWorld := session.world, toContext := {} } with
  | ok bindings t =>
    rw [hr] at reported
    exact ⟨reported.globals orderly.globals, reported.symbols orderly.symbols⟩
  | error halt t =>
    rw [hr] at reported
    exact ⟨reported.globals orderly.globals, reported.symbols orderly.symbols⟩

/-- **The bindings that a program reports are what it could read at its end**,
whether it was run from a text or from a file. The stores of a session are
maps from its start on, and stay so whatever it runs. -/
theorem reports_reads {session : Session} (orderly : session.Orderly) (arguments : List Value) :
    (∀ source, (session.runSource source arguments).2.Orderly ∧
      ∀ bindings after, session.runSource source arguments = (.ok bindings, after) →
        ∃ context, session.Reports source none arguments bindings after context) ∧
    ∀ path, (session.runFile path arguments).2.Orderly ∧
      ∀ bindings after, session.runFile path arguments = (.ok bindings, after) →
        ∃ source context, session.env.readProgram path session.state = .ok source session.state ∧
          session.Reports source (some path) arguments bindings after context := by
  have rules := State.kept_order.executable
  have program : ∀ source origin t, State.keeping State.KeepsOrder t
      (Evaluator.standard.program session.env source origin arguments 0)
      (Evaluator.standard.program session.env source origin arguments 0) := fun source origin t =>
    Related.program rules (State.kept_order.within _) session.env source origin arguments 0 t
  refine ⟨fun source => ⟨orderly.run (program source none _), fun bindings after h => ?_⟩,
    fun path => ⟨orderly.run (rules.look (session.env.after_readProgram path _) fun source => program source _ _),
      fun bindings after h => ?_⟩⟩
  · obtain ⟨t, hr, rfl⟩ := run_eq_ok h
    obtain ⟨context, u, hp, hr⟩ := Run.bind_eq_ok.mp hr
    cases hr
    exact ⟨context, reports_of_program orderly hp⟩
  · obtain ⟨t, hr, rfl⟩ := run_eq_ok h
    obtain ⟨context, u, hp, hr⟩ := Run.bind_eq_ok.mp hr
    cases hr
    obtain ⟨source, s, read, hp⟩ := Run.bind_eq_ok.mp hp
    obtain rfl : s = session.state := by rw [← Run.after_ok read, session.env.after_readProgram]
    exact ⟨source, context, read, reports_of_program orderly hp⟩

/-- A constant over a global of the same name, and a variable of the frame. -/
theorem reports_reads_constant :
    let session := start { presets := [("g", .integer 1)] } (.ofList [])
    let source := "constante g := 2\nk := g + 5"
    session.Orderly ∧ ∃ after context,
      session.runSource source [] = (.ok [("argumentos", "[]"), ("g", "2"), ("k", "7")], after) ∧
      session.Reports source none [] [("argumentos", "[]"), ("g", "2"), ("k", "7")] after context := by
  intro session source
  have presets : Entries.Ascending [("g", Json.integer 1)] := List.pairwise_singleton _ _
  have orderly : session.Orderly := orderly_start presets (.ofList [])
  have reported : (match (session.runSource source []).1 with
      | .ok found => found == [("argumentos", "[]"), ("g", "2"), ("k", "7")]
      | .error _ => false) = true := by decide +kernel
  have pair : ∀ p : Outcome × Session, ∃ outcome after, p = (outcome, after) := fun p => ⟨p.1, p.2, rfl⟩
  obtain ⟨outcome, after, hr⟩ := pair (session.runSource source [])
  rw [hr] at reported
  cases outcome with
  | error halt => cases reported
  | ok found =>
    obtain rfl : found = _ := eq_of_beq reported
    obtain ⟨context, reports⟩ := ((reports_reads orderly []).1 source).2 _ after hr
    exact ⟨orderly, after, context, hr, reports⟩

end Session
end Guion
