import Mathlib.Data.List.Perm.Basic
import Mathlib.Data.List.Sort
import Verdict.Proofs.Bytes
import Verdict.Proofs.Evaluation
import Verdict.Proofs.Spelling
import Verdict.Registry.Shelf

/-!
# Registries and their histories

What a registry holds is told by the registrations made into it: for each kind the last of them
counts, in whatever order the kinds came (`Registry.Reflects`). On a shelf each of the two
registries has a history of its own, which is copied, exchanged and begun anew together with the
registry (`Histories.run`). One step keeps this (`Shelf.Follows.step`), and so does every run; the
listing of kinds is in the order of the bytes of their names throughout
(`Shelf.run_reflects_histories`).
-/

namespace Verdict

/-! ## The order of bytes -/

/-- The two lists differ at some place, where the first has the smaller byte. -/
def PrecedesAt : List UInt8 → List UInt8 → Prop
  | x :: s, y :: t => x < y ∨ x = y ∧ PrecedesAt s t
  | _, _ => False

theorem PrecedesAt.append_lt_append {s t : List UInt8} (h : PrecedesAt s t) (u v : List UInt8) :
    s ++ u < t ++ v := by
  induction s generalizing t with
  | nil => cases h
  | cons x s ih =>
    cases t with
    | nil => cases h
    | cons y t =>
      rw [List.cons_append, List.cons_append, List.cons_lt_cons_iff]
      exact h.imp_right (And.imp_right ih)

/-- The code of a character precedes the codes of all greater ones, however many bytes they have. -/
theorem precedesAt_utf8EncodeChar {c d : Char} (h : c < d) :
    PrecedesAt (String.utf8EncodeChar c) (String.utf8EncodeChar d) := by
  have hlt : c.val.toNat < d.val.toNat := h
  have hmax : d.val.toNat < 0x110000 := by
    rcases d.valid with hd | ⟨-, hd⟩
    · exact Nat.lt_trans hd (by decide)
    · exact hd
  -- the ranges of codes of one, two, three and four bytes, with one comparison of each byte
  simp only [String.utf8EncodeChar]
  repeat' split
  all_goals
    simp only [PrecedesAt, UInt8.lt_iff_toNat_lt, ← UInt8.toNat_inj, UInt8.toNat_ofNat', or_false,
      and_false]
    simp (disch := omega) only [Nat.mod_eq_of_lt]
    omega

theorem flatMap_utf8EncodeChar_lt {s t : List Char} (h : s < t) :
    s.flatMap String.utf8EncodeChar < t.flatMap String.utf8EncodeChar := by
  induction s generalizing t with
  | nil =>
    cases t with
    | nil => exact absurd h (List.lt_irrefl _)
    | cons d t =>
      obtain ⟨b, bytes, hcode⟩ := List.exists_cons_of_ne_nil (String.utf8EncodeChar_ne_nil (c := d))
      rw [List.flatMap_cons, hcode]
      exact List.nil_lt_cons _ _
  | cons c s ih =>
    cases t with
    | nil => exact absurd h (List.not_lt_nil _)
    | cons d t =>
      rw [List.flatMap_cons, List.flatMap_cons]
      rcases List.cons_lt_cons_iff.mp h with hcd | ⟨rfl, hst⟩
      · exact (precedesAt_utf8EncodeChar hcd).append_lt_append _ _
      · exact List.append_left_lt (ih hst)

/-- Texts are ordered as their bytes are. -/
theorem textBytes_lt {s t : String} (h : s < t) : textBytes s < textBytes t := by
  rw [textBytes_eq_flatMap, textBytes_eq_flatMap]
  exact flatMap_utf8EncodeChar_lt (String.lt_iff.mp h)

/-! ## Registering an executor -/

theorem ActionKind.Named.eq_of_name {kind kind' : ActionKind} (h : kind.Named) (h' : kind'.Named)
    (hname : kind.name = kind'.name) : kind = kind' := by
  rw [← h.ofName_name, hname, h'.ofName_name]

namespace Registry

/-- The names of the kinds ascend, and each kind is the one that its name stands for. -/
structure Ordered (registry : Registry) : Prop where
  ascending : registry.Pairwise fun first second => first.kind.name < second.kind.name
  named : ∀ executor ∈ registry, executor.kind.Named

variable {registry registry' : Registry} {executor : Executor} {kind : ActionKind}

theorem Ordered.nil : Ordered [] := ⟨.nil, nofun⟩

theorem kind_of_get? (h : registry.get? kind = some executor) : executor.kind = kind := by
  simpa using List.find?_some h

theorem get?_cons (executor : Executor) (rest : Registry) (kind : ActionKind) :
    get? (executor :: rest) kind = if executor.kind = kind then some executor else rest.get? kind := by
  rw [get?, List.find?_cons, get?]
  split <;> simp_all

theorem eq_or_mem_of_mem_register {other : Executor} (h : other ∈ registry.register executor) :
    other = executor ∨ other ∈ registry := by
  induction registry with
  | nil => exact .inl (List.mem_singleton.mp h)
  | cons first rest ih =>
    rw [register] at h
    split at h
    · exact (List.mem_cons.mp h).imp_right (List.mem_cons_of_mem _)
    · split at h
      · exact List.mem_cons.mp h
      · rcases List.mem_cons.mp h with rfl | h
        · exact .inr List.mem_cons_self
        · exact (ih h).imp_right (List.mem_cons_of_mem _)

theorem Ordered.register (h : registry.Ordered) (hnamed : executor.kind.Named) :
    (registry.register executor).Ordered := by
  constructor
  case named =>
    intro other hother
    rcases eq_or_mem_of_mem_register hother with rfl | hother
    · exact hnamed
    · exact h.named other hother
  case ascending =>
    induction registry with
    | nil => exact List.pairwise_singleton ..
    | cons first rest ih =>
      obtain ⟨hfirst, hrest⟩ := List.pairwise_cons.mp h.ascending
      obtain ⟨hname, hnames⟩ := List.forall_mem_cons.mp h.named
      rw [Registry.register]
      split
      next heq =>
        rw [← heq] at hfirst
        exact List.pairwise_cons.mpr ⟨hfirst, hrest⟩
      next hne =>
        split
        next hlt =>
          refine List.pairwise_cons.mpr ⟨fun other hother => ?_, h.ascending⟩
          rcases List.mem_cons.mp hother with rfl | hother
          · exact hlt
          · exact String.lt_trans hlt (hfirst other hother)
        next hge =>
          -- equal names would be equal kinds, so the first executor stays in front of the new one
          have hlt : first.kind.name < executor.kind.name := Decidable.byContradiction fun hnot =>
            hne (hnamed.eq_of_name hname
              (String.le_antisymm (String.not_lt.mp hnot) (String.not_lt.mp hge)))
          refine List.pairwise_cons.mpr ⟨fun other hother => ?_, ih ⟨hrest, hnames⟩⟩
          rcases eq_or_mem_of_mem_register hother with rfl | hother
          · exact hlt
          · exact hfirst other hother

/-- The executor of the registered kind is the new one, and all other kinds keep theirs. -/
theorem get?_register (registry : Registry) (executor : Executor) (kind : ActionKind) :
    (registry.register executor).get? kind =
      if executor.kind = kind then some executor else registry.get? kind := by
  induction registry with
  | nil => exact get?_cons executor [] kind
  | cons first rest ih =>
    rw [register]
    split
    next heq =>
      rw [get?_cons, get?_cons, ← heq]
      split <;> rfl
    next hne =>
      split
      · exact get?_cons executor (first :: rest) kind
      · rw [get?_cons, get?_cons, ih]
        by_cases hkind : executor.kind = kind
        · rw [if_neg fun hfirst => hne (hkind.trans hfirst.symm), if_pos hkind, if_pos hkind]
        · rw [if_neg hkind, if_neg hkind]

/-! A registry in order is determined by what it finds. -/

theorem Ordered.nodup_kinds (h : registry.Ordered) : registry.kinds.Nodup := by
  rw [kinds, List.Nodup, List.pairwise_map]
  refine h.ascending.imp ?_
  intro first second hlt heq
  exact String.lt_irrefl _ (heq ▸ hlt)

theorem Ordered.mem_iff (h : registry.Ordered) :
    executor ∈ registry ↔ registry.get? executor.kind = some executor := by
  constructor
  · intro hmem
    induction registry with
    | nil => cases hmem
    | cons first rest ih =>
      obtain ⟨hfirst, hrest⟩ := List.pairwise_cons.mp h.ascending
      rw [get?_cons]
      rcases List.mem_cons.mp hmem with rfl | hmem
      · rw [if_pos rfl]
      · rw [if_neg fun heq => String.lt_irrefl _ (heq ▸ hfirst executor hmem)]
        exact ih ⟨hrest, (List.forall_mem_cons.mp h.named).2⟩ hmem
  · exact List.mem_of_find?_eq_some

theorem Ordered.ext (h : registry.Ordered) (h' : registry'.Ordered)
    (hget : ∀ kind, registry.get? kind = registry'.get? kind) : registry = registry' := by
  have hperm : registry.Perm registry' := by
    refine (List.perm_ext_iff_of_nodup (.of_map _ h.nodup_kinds) (.of_map _ h'.nodup_kinds)).mpr ?_
    intro executor
    rw [h.mem_iff, h'.mem_iff, hget]
  refine hperm.eq_of_pairwise (fun first second _ _ hlt hgt => ?_) h.ascending h'.ascending
  exact absurd hlt (String.lt_asymm hgt)

theorem Ordered.register_comm (h : registry.Ordered) {first second : Executor}
    (hfirst : first.kind.Named) (hsecond : second.kind.Named) (hne : first.kind ≠ second.kind) :
    (registry.register first).register second = (registry.register second).register first := by
  refine Ordered.ext ((h.register hfirst).register hsecond)
    ((h.register hsecond).register hfirst) fun kind => ?_
  simp only [get?_register]
  by_cases hkind : first.kind = kind
  · rw [if_pos hkind, if_pos hkind, if_neg fun hsecond => hne (hkind.trans hsecond.symm)]
  · rw [if_neg hkind, if_neg hkind]

/-! ## Histories -/

/-- The executor that was registered last for a kind, the latest one standing last. -/
def latest? (history : List Executor) (kind : ActionKind) : Option Executor :=
  (history.filter fun executor => decide (executor.kind = kind)).getLast?

theorem latest?_append_singleton (history : List Executor) (executor : Executor)
    (kind : ActionKind) :
    latest? (history ++ [executor]) kind =
      if executor.kind = kind then some executor else latest? history kind := by
  rw [latest?, List.filter_append, latest?]
  split
  next h => simp [h]
  next h => simp [h]

section
variable (texts emails : Channel)

theorem builtIn_eq : builtIn texts emails =
    (register (TextMessage.executor texts) []).register (Email.executor emails) := rfl

theorem builtIn_ordered : (builtIn texts emails).Ordered := by
  rw [builtIn_eq]
  exact (Ordered.nil.register ⟨"send-message", rfl⟩).register ⟨"send-email", rfl⟩

theorem get?_builtIn (kind : ActionKind) : (builtIn texts emails).get? kind =
    latest? ([] ++ [TextMessage.executor texts] ++ [Email.executor emails]) kind := by
  rw [builtIn_eq, get?_register, get?_register, latest?_append_singleton,
    latest?_append_singleton]
  rfl

end

/-- The registry finds for each kind the executor that was registered last for it, and lists the
kinds in the order of the bytes of their names. -/
structure Reflects (registry : Registry) (history : List Executor) : Prop where
  present : ∀ kind, registry.contains kind = true ↔ ∃ executor, registry.get? kind = some executor
  listed : ∀ kind, kind ∈ registry.kinds ↔ registry.contains kind = true
  latest : ∀ kind, registry.get? kind = latest? history kind
  kind : ∀ kind executor, registry.get? kind = some executor → executor.kind = kind
  ascending : registry.kinds.Pairwise fun first second =>
    textBytes first.name < textBytes second.name
  nodup : registry.kinds.Nodup

theorem Ordered.reflects (h : registry.Ordered) {history : List Executor}
    (hlatest : ∀ kind, registry.get? kind = latest? history kind) :
    registry.Reflects history where
  present _ := contains_iff
  listed _ := mem_kinds_iff
  latest := hlatest
  kind _ _ := kind_of_get?
  ascending := by
    rw [kinds, List.pairwise_map]
    exact h.ascending.imp textBytes_lt
  nodup := h.nodup_kinds

end Registry

/-- The registrations into each of the registries of a shelf, the latest one last. -/
structure Histories where
  current : List Executor := []
  saved : List Executor := []

namespace Histories

/-- A registry that is begun anew begins with the executors that the configuration asks for. -/
def step (histories : Histories) : Shelf.Step → Histories
  | .register executor => { histories with current := histories.current ++ [executor] }
  | .reset webhook config => { histories with current := Executor.ofConfig webhook config }
  | .save => { histories with saved := histories.current }
  | .swap => ⟨histories.saved, histories.current⟩

def run (histories : Histories) (steps : List Shelf.Step) : Histories := steps.foldl step histories

end Histories

namespace Shelf

/-- Both registries are in order and find what their histories say. -/
structure Follows (shelf : Shelf) (histories : Histories) : Prop where
  current : shelf.current.Ordered
  saved : shelf.saved.Ordered
  currentLatest : ∀ kind, shelf.current.get? kind = Registry.latest? histories.current kind
  savedLatest : ∀ kind, shelf.saved.get? kind = Registry.latest? histories.saved kind

variable {shelf : Shelf} {histories : Histories}

theorem Follows.empty : Follows {} {} := ⟨.nil, .nil, fun _ => rfl, fun _ => rfl⟩

theorem Follows.step (h : Follows shelf histories) (step : Step)
    (hnamed : ∀ executor, step = .register executor → executor.kind.Named) :
    Follows (shelf.step step) (histories.step step) := by
  cases step with
  | register executor =>
    refine { h with current := h.current.register (hnamed executor rfl), currentLatest := ?_ }
    intro kind
    rw [Shelf.step, Histories.step, Registry.get?_register, Registry.latest?_append_singleton,
      h.currentLatest]
  | reset webhook config =>
    exact { h with
      current := Registry.builtIn_ordered _ _, currentLatest := Registry.get?_builtIn _ _ }
  | save => exact { h with saved := h.current, savedLatest := h.currentLatest }
  | swap => exact ⟨h.saved, h.current, h.savedLatest, h.currentLatest⟩

theorem Follows.run (h : Follows shelf histories) {steps : List Step}
    (hnamed : ∀ executor, .register executor ∈ steps → executor.kind.Named) :
    Follows (shelf.run steps) (histories.run steps) := by
  induction steps generalizing shelf histories with
  | nil => exact h
  | cons step steps ih =>
    refine ih (h.step step fun executor hstep => ?_) fun executor hmem => ?_
    · exact hnamed executor (hstep ▸ List.mem_cons_self)
    · exact hnamed executor (List.mem_cons_of_mem _ hmem)

theorem run_append (shelf : Shelf) (first rest : List Step) :
    shelf.run (first ++ rest) = (shelf.run first).run rest := List.foldl_append

/-- Registrations do not reach what was set aside. -/
theorem saved_run_register (shelf : Shelf) (executors : List Executor) :
    (shelf.run (executors.map .register)).saved = shelf.saved := by
  induction executors generalizing shelf with
  | nil => rfl
  | cons executor executors ih => exact ih (shelf.step (.register executor))

/-- Whatever is done to a shelf, each of its registries reflects its own history. What is registered
after a copy was set aside is nothing to the copy, and registrations of two kinds may be made in
either order. -/
theorem run_reflects_histories (steps : List Step)
    (named : ∀ executor, .register executor ∈ steps → executor.kind.Named) :
    let shelf := run {} steps
    let histories := Histories.run {} steps
    shelf.current.Reflects histories.current ∧ shelf.saved.Reflects histories.saved ∧
    (∀ later : List Executor,
      let after := run {} (steps ++ .save :: later.map .register)
      (∀ kind, after.saved.get? kind = shelf.current.get? kind ∧
        after.saved.contains kind = shelf.current.contains kind) ∧
      after.saved.kinds = shelf.current.kinds ∧
      ∀ actions past, after.saved.executeAll actions past = shelf.current.executeAll actions past) ∧
    ∀ (first second : Executor) (rest : List Step),
      first.kind.Named → second.kind.Named → first.kind ≠ second.kind →
      run {} (steps ++ .register first :: .register second :: rest) =
        run {} (steps ++ .register second :: .register first :: rest) := by
  intro shelf histories
  have hfollows : Follows shelf histories := Follows.empty.run named
  refine ⟨hfollows.current.reflects hfollows.currentLatest,
    hfollows.saved.reflects hfollows.savedLatest, fun later => ?_, ?_⟩
  · have hsaved : (run {} (steps ++ .save :: later.map .register)).saved = shelf.current := by
      rw [run_append]
      exact saved_run_register (shelf.step .save) later
    simp only [hsaved, and_self, implies_true]
  · intro first second rest hfirst hsecond hne
    have hcomm := hfollows.current.register_comm hfirst hsecond hne
    rw [run_append, run_append]
    exact congrArg (fun current => run ⟨current, shelf.saved⟩ rest) hcomm

/-- A registry of faxes is set aside, and the one that is left begins anew. -/
def faxSteps : List Step := [
  .register (.counting (.custom "fax")), .save, .register (.counting .sendEmail), .swap,
  .reset (fun name _ => .logged name) {}, .register (.counting (.custom "télex"))]

theorem fax_histories :
    (∀ executor, .register executor ∈ faxSteps → executor.kind.Named) ∧
    (run {} faxSteps).saved.Reflects [.counting (.custom "fax"), .counting .sendEmail] ∧
    (run {} faxSteps).current.kinds = [.sendEmail, .sendMessage, .custom "télex"] ∧
    run {} (faxSteps ++ [.register (.counting .sendMessage), .register (.counting .sendEmail)]) =
      run {} (faxSteps ++ [.register (.counting .sendEmail), .register (.counting .sendMessage)]) := by
  have hnamed : ∀ executor, .register executor ∈ faxSteps → executor.kind.Named := by
    simp only [faxSteps, List.mem_cons, Step.register.injEq, reduceCtorEq, List.not_mem_nil,
      false_or, or_false]
    rintro _ (rfl | rfl | rfl)
    · exact ⟨"fax", rfl⟩
    · exact ⟨"EmailAction", rfl⟩
    · exact ⟨"télex", rfl⟩
  obtain ⟨-, hsaved, -, hcomm⟩ := run_reflects_histories faxSteps hnamed
  exact ⟨hnamed, hsaved, by decide,
    hcomm _ _ [] ⟨"SMSAction", rfl⟩ ⟨"EmailAction", rfl⟩ (by decide)⟩

end Shelf

end Verdict
