import DataSchema.Proofs.Sequence
import DataSchema.Registry

/-!
Registries under operations in any order. Main statement: what a registry answers is decided by the
registrations that were made, of which those with ids that name no kind count for nothing: a lookup
finds what was registered last for the kind, and the kinds stand in the order of their first
registrations.
-/

namespace DataSchema

namespace Registry

variable {ρ : Type} {registry : Registry ρ} {history : List (Value × ρ)} {kind : Kind} {id : Value}
  {r : ρ}

/-! ### Entries -/

theorem lookup_cons_eq (k : Kind) (entry : Kind × ρ) (entries : List (Kind × ρ)) :
    (entry :: entries).lookup k = if k = entry.1 then some entry.2 else entries.lookup k := by
  rw [List.lookup_cons]
  by_cases h : k = entry.1
  · rw [beq_iff_eq.mpr h, if_pos h]
  · rw [beq_eq_false_iff_ne.mpr h, if_neg h]

/-- What is put under a kind is found there, and all else where it was. -/
theorem lookup_put (kind k : Kind) (r : ρ) (entries : List (Kind × ρ)) :
    (put kind r entries).lookup k = if k = kind then some r else entries.lookup k := by
  induction entries with
  | nil => rw [put, lookup_cons_eq]
  | cons entry entries ih =>
    obtain ⟨old, r'⟩ := entry
    by_cases hold : old = kind
    · subst hold
      rw [put, if_pos rfl, lookup_cons_eq, lookup_cons_eq]
      by_cases h : k = old <;> simp only [h, if_true, if_false]
    · rw [put, if_neg hold, lookup_cons_eq, lookup_cons_eq, ih]
      by_cases h : k = old
      · rw [if_pos h, if_pos h, if_neg fun hk => hold (h ▸ hk)]
      · rw [if_neg h, if_neg h]

theorem lookup_isSome_iff {entries : List (Kind × ρ)} :
    (entries.lookup kind).isSome = true ↔ kind ∈ entries.map (·.1) := by
  induction entries with
  | nil => simp
  | cons entry entries ih =>
    rw [lookup_cons_eq, List.map_cons, List.mem_cons, ← ih]
    by_cases h : kind = entry.1 <;> simp [h]

/-- An id that names no kind is refused as an id. -/
theorem family_of_resolve? {e : Error} (h : Kind.resolve? id = .error e) :
    e.family = .descriptor := by
  unfold Kind.resolve? Kind.ofWord? at h
  split at h
  · exact nomatch h
  · dsimp only at h
    split at h
    · split at h
      · exact nomatch h
      · obtain rfl := Except.error.inj h
        rfl
    · obtain rfl := Except.error.inj h
      rfl
  · obtain rfl := Except.error.inj h
    rfl

/-! ### Operations -/

/-- What is done with a registry once it is there. -/
inductive Operation (ρ : Type) where
  | register (id : Value) (r : ρ)
  | has (id : Value)
  | find (id : Value)
  | kinds

/-- What an operation answers. -/
inductive Answer (ρ : Type) where
  | done
  | holds (b : Bool)
  | found (f : Found ρ)
  | kinds (ks : List Kind)
  | failed (e : Error)

/-- The answer of an operation and the registry after it, which stays where the operation fails. -/
def perform (registry : Registry ρ) : Operation ρ → Answer ρ × Registry ρ
  | .register id r => match registry.register id r with
    | .ok registry => (.done, registry)
    | .error e => (.failed e, registry)
  | .has id => (.holds (registry.has id), registry)
  | .find id => match (Log.outcome (registry.find id)).1 with
    | .ok f => (.found f, registry)
    | .error e => (.failed e, registry)
  | .kinds => (.kinds registry.kinds, registry)

/-- The registry after some operations. -/
def after (registry : Registry ρ) (ops : List (Operation ρ)) : Registry ρ :=
  ops.foldl (fun registry op => (registry.perform op).2) registry

/-- The registrations among operations, also those that are refused. -/
def Operation.registrations : Operation ρ → List (Value × ρ)
  | .register id r => [(id, r)]
  | _ => []

/-! ### Histories -/

/-- A renderer is the last that was registered for a kind, under whatever id. -/
def IsLast (history : List (Value × ρ)) (kind : Kind) (r : ρ) : Prop :=
  ∃ before id later, history = before ++ (id, r) :: later ∧ Kind.resolve? id = .ok kind ∧
    ∀ entry ∈ later, Kind.resolve? entry.1 ≠ .ok kind

/-- What is found under an id. -/
inductive Finds (history : List (Value × ρ)) (id : Value) : Found ρ → Prop
  | renderer {kind : Kind} {r : ρ} (h : Kind.resolve? id = .ok kind) (hr : IsLast history kind r) :
    Finds history id (.renderer r)
  | unregistered {kind : Kind} (h : Kind.resolve? id = .ok kind)
    (hnone : ∀ entry ∈ history, Kind.resolve? entry.1 ≠ .ok kind) :
    Finds history id (.unsupported kind.id)
  | unknown {e : Error} (h : Kind.resolve? id = .error e) :
    Finds history id (.unsupported id.plainText)

/-- The kinds that registrations were made for, in their order. -/
def registered (history : List (Value × ρ)) : List Kind :=
  history.filterMap fun entry => (Kind.resolve? entry.1).toOption

/-- A registry that is what a history of registrations makes of it. -/
structure Records (registry : Registry ρ) (history : List (Value × ρ)) : Prop where
  last : ∀ kind r, registry.entries.lookup kind = some r → IsLast history kind r
  none : ∀ kind, registry.entries.lookup kind = none →
    ∀ entry ∈ history, Kind.resolve? entry.1 ≠ .ok kind
  kinds : registry.kinds = (registered history).eraseDups
  nodup : registry.kinds.Nodup

theorem records_empty : (empty : Registry ρ).Records [] where
  last _ _ h := nomatch h
  none _ _ _ h := nomatch h
  kinds := rfl
  nodup := List.nodup_nil

theorem register_eq (hkind : Kind.resolve? id = .ok kind) (registry : Registry ρ) (r : ρ) :
    registry.register id r = .ok ⟨put kind r registry.entries⟩ := by
  rw [register, hkind]
  rfl

theorem register_error {e : Error} (h : Kind.resolve? id = .error e) (registry : Registry ρ)
    (r : ρ) : registry.register id r = .error e := by
  rw [register, h]
  rfl

theorem registered_append (history : List (Value × ρ)) (entry : Value × ρ) :
    registered (history ++ [entry]) =
      registered history ++ (Kind.resolve? entry.1).toOption.toList := by
  rw [registered, List.filterMap_append]
  cases hkind : (Kind.resolve? entry.1).toOption <;> simp [registered, hkind]

theorem IsLast.snoc (h : IsLast history kind r) {entry : Value × ρ}
    (hentry : Kind.resolve? entry.1 ≠ .ok kind) : IsLast (history ++ [entry]) kind r := by
  obtain ⟨before, id, later, rfl, hid, hlater⟩ := h
  refine ⟨before, id, later ++ [entry], by simp, hid, ?_⟩
  exact List.forall_mem_append.mpr ⟨hlater, by simpa using hentry⟩

theorem kinds_register (registry : Registry ρ) (kind : Kind) (r : ρ) :
    Registry.kinds ⟨put kind r registry.entries⟩ =
      if kind ∈ registry.kinds then registry.kinds else registry.kinds ++ [kind] :=
  kinds_put kind r registry.entries

theorem eraseDups_snoc (kinds : List Kind) (kind : Kind) : (kinds ++ [kind]).eraseDups =
    if kind ∈ kinds then kinds.eraseDups else kinds.eraseDups ++ [kind] := by
  rw [List.eraseDups_append]
  by_cases h : kind ∈ kinds <;> simp [List.removeAll, List.eraseDups_cons, h]

/-- A registration under an id that names a kind. -/
theorem Records.register (h : registry.Records history) (hkind : Kind.resolve? id = .ok kind)
    (r : ρ) : Records ⟨put kind r registry.entries⟩ (history ++ [(id, r)]) where
  last k r' hlookup := by
    rw [lookup_put] at hlookup
    split at hlookup
    · next hk =>
      obtain rfl := Option.some.inj hlookup
      exact ⟨history, id, [], rfl, hk ▸ hkind, by simp⟩
    · next hk =>
      refine (h.last k r' hlookup).snoc fun hother => ?_
      rw [hkind] at hother
      exact hk (Except.ok.inj hother).symm
  none k hlookup := by
    rw [lookup_put] at hlookup
    split at hlookup
    · contradiction
    · next hk =>
      refine List.forall_mem_append.mpr ⟨h.none k hlookup, ?_⟩
      rw [List.forall_mem_singleton, hkind]
      exact fun hother => hk (Except.ok.inj hother).symm
  kinds := by
    have hmem : kind ∈ registry.kinds ↔ kind ∈ registered history := by
      rw [h.kinds, List.mem_eraseDups]
    rw [kinds_register, registered_append, hkind, Except.toOption, Option.toList, eraseDups_snoc,
      ← h.kinds]
    simp only [hmem]
  nodup := by
    rw [kinds_register]
    split
    · exact h.nodup
    · next hnew =>
      refine List.nodup_append.mpr ⟨h.nodup, by simp, fun k hk k' hk' heq => ?_⟩
      rw [heq, List.mem_singleton.mp hk'] at hk
      exact hnew hk

/-- A registration that is refused. -/
theorem Records.refuse (h : registry.Records history) {e : Error}
    (hid : Kind.resolve? id = .error e) (r : ρ) : registry.Records (history ++ [(id, r)]) := by
  have hnone (kind : Kind) : Kind.resolve? id ≠ .ok kind := by
    rw [hid]
    exact fun hkind => nomatch hkind
  constructor
  · exact fun kind r' hlookup => (h.last kind r' hlookup).snoc (hnone kind)
  · intro kind hlookup
    exact List.forall_mem_append.mpr ⟨h.none kind hlookup, by simpa using hnone kind⟩
  · rw [registered_append, hid, h.kinds]
    exact congrArg List.eraseDups (List.append_nil _).symm
  · exact h.nodup

/-- An operation keeps what a registry records. -/
theorem Records.perform (h : registry.Records history) (op : Operation ρ) :
    (registry.perform op).2.Records (history ++ op.registrations) := by
  cases op with
  | register id r =>
    rw [Registry.perform, Operation.registrations]
    cases hkind : Kind.resolve? id with
    | ok kind =>
      rw [register_eq hkind]
      exact h.register hkind r
    | error e =>
      rw [register_error hkind]
      exact h.refuse hkind r
  | has id | kinds =>
    simp only [Operation.registrations, List.append_nil]
    exact h
  | find id =>
    simp only [Operation.registrations, List.append_nil, Registry.perform]
    split <;> exact h

/-- Operations one after the other keep what a registry records. -/
theorem Records.after (h : registry.Records history) (ops : List (Operation ρ)) :
    (registry.after ops).Records (history ++ ops.flatMap Operation.registrations) := by
  induction ops generalizing registry history with
  | nil => simpa [Registry.after] using h
  | cons op ops ih =>
    rw [List.flatMap_cons, ← List.append_assoc]
    exact ih (h.perform op)

/-- A registry that is built from entries records these. -/
theorem Records.entries (h : registry.Records history) {entries : List (Value × ρ)}
    {built : Registry ρ}
    (hbuilt : entries.foldlM (fun registry (id, r) => registry.register id r) registry =
      .ok built) : built.Records (history ++ entries) := by
  induction entries generalizing registry history with
  | nil =>
    obtain rfl := Except.ok.inj hbuilt
    rwa [List.append_nil]
  | cons entry entries ih =>
    rw [List.foldlM_cons] at hbuilt
    obtain ⟨first, hfirst, hrest⟩ := exists_of_bind_eq_ok hbuilt
    have hop : (registry.perform (.register entry.1 entry.2)).2 = first := by
      simp only [Registry.perform, hfirst]
    have hstep := h.perform (.register entry.1 entry.2)
    rw [hop] at hstep
    rw [List.append_cons]
    exact ih hstep hrest

/-- A registry is built unless an id among the entries is refused. -/
theorem resolve?_of_ofEntries {entries : List (Value × ρ)} {e : Error}
    (h : ofEntries entries = .error e) : ∃ entry ∈ entries, Kind.resolve? entry.1 = .error e := by
  have hfails : FailsOnly (fun e => ∃ entry ∈ entries, Kind.resolve? entry.1 = .error e) _
      (ofEntries entries) := by
    refine FailsOnly.sequential.foldlM (fun registry entry hentry e he => ?_) empty
    obtain ⟨id, r⟩ := entry
    refine ⟨(id, r), hentry, ?_⟩
    change registry.register id r = .error e at he
    cases hkind : Kind.resolve? id with
    | ok kind =>
      rw [register_eq hkind] at he
      contradiction
    | error e' =>
      rw [register_error hkind] at he
      obtain rfl := Except.error.inj he
      rfl
  exact hfails e h

/-! ### Lookups -/

/-- A lookup finds what the history decides. -/
theorem Records.find (h : registry.Records history) (id : Value) :
    ∃ f, (Log.outcome (registry.find id)).1 = .ok f ∧ Finds history id f := by
  unfold Registry.find
  cases hkind : Kind.resolve? id with
  | error e => exact ⟨_, rfl, .unknown hkind⟩
  | ok kind =>
    dsimp only
    cases hlookup : registry.entries.lookup kind with
    | none => exact ⟨_, rfl, .unregistered hkind (h.none kind hlookup)⟩
    | some r => exact ⟨_, rfl, .renderer hkind (h.last kind r hlookup)⟩

theorem perform_find_eq_found_iff {f : Found ρ} : (registry.perform (.find id)).1 = .found f ↔
    (Log.outcome (registry.find id)).1 = .ok f := by
  rw [perform]
  split
  · next hf => rw [hf, Answer.found.injEq, Except.ok.injEq]
  · next he => simp [he]

/-- A registry has a renderer where a lookup finds one. -/
theorem has_iff (registry : Registry ρ) (id : Value) : registry.has id = true ↔
    ∃ r, (Log.outcome (registry.find id)).1 = .ok (.renderer r) := by
  unfold has Registry.find
  cases hkind : Kind.resolve? id with
  | error e =>
    refine iff_of_false Bool.false_ne_true ?_
    rintro ⟨r, hr⟩
    exact nomatch Except.ok.inj hr
  | ok kind =>
    dsimp only
    rw [List.contains_iff_mem, kinds, ← lookup_isSome_iff]
    cases registry.entries.lookup kind with
    | none =>
      refine iff_of_false Bool.false_ne_true ?_
      rintro ⟨r, hr⟩
      exact nomatch Except.ok.inj hr
    | some r => exact iff_of_true rfl ⟨r, rfl⟩

/-- Only a registration changes a registry, and only one whose id names a kind. -/
theorem perform_eq_self {op : Operation ρ}
    (h : ∀ id r, op = .register id r → ∃ e, Kind.resolve? id = .error e) :
    (registry.perform op).2 = registry := by
  cases op with
  | register id r =>
    obtain ⟨e, he⟩ := h id r rfl
    simp only [perform, register_error he]
  | find id =>
    rw [perform]
    split <;> rfl
  | has | kinds => rfl

end Registry

end DataSchema
