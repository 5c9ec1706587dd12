import CraftecCore.Ipc.Protocol
import CraftecCore.Library.Split

/-!
# Namespace — routing of methods

A method is cut at its first dot.  If a handler is registered for what stands before the dot, it is
called with what stands behind it; otherwise the default handler is called with the whole method.
Of several registrations of one name the last counts, whatever stands between them, and a name with
a dot is never looked up.
-/

namespace CraftecCore
namespace Ipc

variable {V : Type}

structure NamespacedHandler (V : Type) where
  handlers : String → Option (Handler V)
  default : Option (Handler V)

namespace NamespacedHandler

def new : NamespacedHandler V :=
  { handlers := fun _ => none
    default := none }

/-- Register a handler for a namespace; an earlier one is replaced. -/
def addNamespace (r : NamespacedHandler V) (ns : String) (h : Handler V) : NamespacedHandler V :=
  { r with handlers := fun name => if name = ns then some h else r.handlers name }

def setDefault (r : NamespacedHandler V) (h : Handler V) : NamespacedHandler V :=
  { r with default := some h }

/-- The handler of a method, and the method it is called with. -/
def resolve (r : NamespacedHandler V) (method : String) : Option (Handler V) × String :=
  match Split.splitOnce '.' method with
  | some (ns, rest) =>
      match r.handlers ns with
      | some h => (some h, rest)
      | none => (r.default, method)
  | none => (r.default, method)

def unknownMethod (method : String) : String :=
  "unknown method: " ++ method

def handle (r : NamespacedHandler V) : Handler V :=
  fun n method params =>
    match r.resolve method with
    | (some h, stripped) => h n stripped params
    | (none, _) => .error (unknownMethod method)

end NamespacedHandler

/-! ## The builder -/

inductive BuilderCall (V : Type)
  | addNamespace (ns : String) (h : Handler V)
  | defaultHandler (h : Handler V)

namespace BuilderCall

def apply (r : NamespacedHandler V) : BuilderCall V → NamespacedHandler V
  | .addNamespace ns h => r.addNamespace ns h
  | .defaultHandler h => r.setDefault h

def build (calls : List (BuilderCall V)) : NamespacedHandler V :=
  calls.foldl apply NamespacedHandler.new

def namespaceHandler? (ns : String) : BuilderCall V → Option (Handler V)
  | .addNamespace name h => if ns = name then some h else none
  | .defaultHandler _ => none

def defaultHandler? : BuilderCall V → Option (Handler V)
  | .addNamespace _ _ => none
  | .defaultHandler h => some h

/-- The last of the calls that `f` picks picks `h`. -/
def LastIs (f : BuilderCall V → Option (Handler V)) (calls : List (BuilderCall V))
    (h : Handler V) : Prop :=
  ∃ before call after, calls = before ++ call :: after ∧ f call = some h ∧
    ∀ later ∈ after, f later = none

variable {calls : List (BuilderCall V)}

theorem handlers_build (calls : List (BuilderCall V)) (ns : String) :
    (build calls).handlers ns = calls.reverse.findSome? (namespaceHandler? ns) := by
  induction calls using List.reverseRecOn with
  | nil => rfl
  | append_singleton calls call ih =>
      rw [List.reverse_append, List.reverse_singleton, List.singleton_append,
        List.findSome?_cons, ← ih, build, List.foldl_append]
      cases call with
      | addNamespace name h =>
          by_cases hname : ns = name <;>
            simp [apply, NamespacedHandler.addNamespace, namespaceHandler?, hname, build]
      | defaultHandler h => rfl

theorem default_build (calls : List (BuilderCall V)) :
    (build calls).default = calls.reverse.findSome? defaultHandler? := by
  induction calls using List.reverseRecOn with
  | nil => rfl
  | append_singleton calls call ih =>
      rw [List.reverse_append, List.reverse_singleton, List.singleton_append,
        List.findSome?_cons, ← ih, build, List.foldl_append]
      cases call <;> rfl

theorem findSome?_reverse_eq_some_iff {f : BuilderCall V → Option (Handler V)} {h : Handler V} :
    calls.reverse.findSome? f = some h ↔ LastIs f calls h := by
  rw [List.findSome?_eq_some_iff]
  constructor
  · rintro ⟨after, call, before, heq, hcall, hafter⟩
    refine ⟨before.reverse, call, after.reverse, ?_, hcall, ?_⟩
    · rw [← List.reverse_reverse calls, heq]
      simp
    · intro later hlater
      exact hafter later (List.mem_reverse.1 hlater)
  · rintro ⟨before, call, after, rfl, hcall, hafter⟩
    refine ⟨after.reverse, call, before.reverse, by simp, hcall, ?_⟩
    intro later hlater
    exact hafter later (List.mem_reverse.1 hlater)

theorem findSome?_reverse_eq_none_iff {f : BuilderCall V → Option (Handler V)} :
    calls.reverse.findSome? f = none ↔ ∀ call ∈ calls, f call = none := by
  simp [List.findSome?_eq_none_iff]

/-- The method has no namespace for which a handler is registered. -/
def Unrouted (calls : List (BuilderCall V)) (method : String) : Prop :=
  ∀ ns rest, '.' ∉ ns.toList → method = Split.glue '.' ns rest →
    ∀ call ∈ calls, namespaceHandler? ns call = none

theorem handle_of_namespace {ns : String} {h : Handler V} (hns : '.' ∉ ns.toList)
    (hlast : LastIs (namespaceHandler? ns) calls h) (n : ℕ) (rest : String) (params : Option V) :
    (build calls).handle n (Split.glue '.' ns rest) params = h n rest params := by
  have hhandler : (build calls).handlers ns = some h := by
    rw [handlers_build, findSome?_reverse_eq_some_iff]
    exact hlast
  simp only [NamespacedHandler.handle, NamespacedHandler.resolve, Split.splitOnce_glue hns,
    hhandler]

/-- Without a handler for its namespace the whole method goes to the default. -/
theorem resolve_of_unrouted {method : String} (h : Unrouted calls method) :
    (build calls).resolve method = (calls.reverse.findSome? defaultHandler?, method) := by
  unfold NamespacedHandler.resolve
  rw [← default_build]
  cases hsplit : Split.splitOnce '.' method with
  | none => rfl
  | some parts =>
      rcases parts with ⟨ns, rest⟩
      rcases Split.splitOnce_eq_some_iff.1 hsplit with ⟨hns, hmethod⟩
      have hnone : (build calls).handlers ns = none := by
        rw [handlers_build, findSome?_reverse_eq_none_iff]
        exact h ns rest hns hmethod
      simp only [hnone]

/-- Every method, after any sequence of builder calls: the handler that was registered last for its
namespace is called with what stands behind the first dot; if there is none, the default handler
that was set last is called with the whole method; if there is none, the answer is an error that
names the method. -/
theorem handle_build (calls : List (BuilderCall V)) (n : ℕ) (method : String)
    (params : Option V) :
    (∀ ns rest h, '.' ∉ ns.toList → method = Split.glue '.' ns rest →
        LastIs (namespaceHandler? ns) calls h →
          (build calls).handle n method params = h n rest params) ∧
      (Unrouted calls method → ∀ d, LastIs defaultHandler? calls d →
        (build calls).handle n method params = d n method params) ∧
      (Unrouted calls method → (∀ call ∈ calls, defaultHandler? call = none) →
        (build calls).handle n method params = .error ("unknown method: " ++ method)) := by
  refine ⟨?_, ?_, ?_⟩
  · rintro ns rest h hns rfl hlast
    exact handle_of_namespace hns hlast n rest params
  · intro hunrouted d hlast
    rw [← findSome?_reverse_eq_some_iff] at hlast
    simp only [NamespacedHandler.handle, resolve_of_unrouted hunrouted, hlast]
  · intro hunrouted hnone
    rw [← findSome?_reverse_eq_none_iff] at hnone
    simp only [NamespacedHandler.handle, resolve_of_unrouted hunrouted, hnone]
    rfl

/-! ## Routers behind routers -/

/-- The handler that is reached from a router through a list of namespaces. -/
inductive Leads : List String → Handler V → Handler V → Prop
  | here (h : Handler V) : Leads [] h h
  | into {ns : String} {path : List String} {calls : List (BuilderCall V)} {h leaf : Handler V} :
      '.' ∉ ns.toList → LastIs (namespaceHandler? ns) calls h → Leads path h leaf →
        Leads (ns :: path) (build calls).handle leaf

/-- Routers can be nested to any depth: each cuts its own namespace off the method. -/
theorem Leads.handle_eq {path : List String} {root leaf : Handler V} (h : Leads path root leaf)
    (n : ℕ) (method : String) (params : Option V) :
    root n (path.foldr (Split.glue '.') method) params = leaf n method params := by
  induction h with
  | here h => rfl
  | into hns hlast _ ih =>
      rw [List.foldr_cons, handle_of_namespace hns hlast]
      exact ih

/-- `node.data.status` behind two routers. -/
theorem handle_eq_nested :
    (build [.addNamespace "node"
        (build [.addNamespace "data" readyHandler]).handle]).handle 0 "node.data.status" none =
      readyHandler 0 "status" none := by
  have hdata : Leads ["data"] (build [.addNamespace "data" readyHandler]).handle readyHandler :=
    .into (by decide) ⟨[], _, [], rfl, rfl, by simp⟩ (.here readyHandler)
  have hnode : Leads ["node", "data"]
      (build [.addNamespace "node" (build [.addNamespace "data" readyHandler]).handle]).handle
      readyHandler :=
    .into (by decide) ⟨[], _, [], rfl, rfl, by simp⟩ hdata
  exact hnode.handle_eq 0 "status" none

end BuilderCall

end Ipc
end CraftecCore
