import Conform.Caster
import Conform.Proofs.Descriptor.Parts
import Conform.Proofs.Entries
import Conform.Proofs.Program.Run

/-!
# Casters in use

A caster finds what it keeps by identity alone, and an identity that nobody holds any more may be
given to another type. A `Session` is a caster together with everything that holds types: the
caller, the coercions that the caller was given, the cache and the table of conversions. Operations
on it take place one after the other, and a new type may take any identity that no live type has.

Main statement: `Session.faithful_of_runs`. After any operations the caster casts and prepares just
as it is done without it, and it keeps what was prepared since it was last cleared.
-/

namespace Conform

/-- A type is a part of itself and of the types that are made of it. -/
inductive Descriptor.PartOf (d : Descriptor) : Descriptor → Prop
  | whole : PartOf d d
  | ofPart {id : Nat} {shape : Shape} {e : Descriptor} (he : e ∈ shape.parts) (hd : d.PartOf e) :
    PartOf d (.node id shape)

/-- A part of a node is the node or a part of one of its parts. -/
theorem Descriptor.partOf_node_iff {d : Descriptor} {id : Nat} {shape : Shape} :
    d.PartOf (.node id shape) ↔ d = .node id shape ∨ ∃ e ∈ shape.parts, d.PartOf e := by
  constructor
  · intro h
    cases h with
    | whole => exact .inl rfl
    | ofPart he hd => exact .inr ⟨_, he, hd⟩
  · rintro (rfl | ⟨e, he, hd⟩)
    · exact .whole
    · exact .ofPart he hd

/-- A part of a part is a part. -/
theorem Descriptor.PartOf.trans {d e f : Descriptor} (hd : d.PartOf e) (he : e.PartOf f) :
    d.PartOf f := by
  induction he with
  | whole => exact hd
  | ofPart hpart _ ih => exact .ofPart hpart ih

namespace Caster

variable {c : Caster} {d : Descriptor}

/-- Every entry is a type under its identity, prepared in the context of the caster. -/
def Prepared (c : Caster) : Prop :=
  ∀ entry ∈ c.cache,
    entry.2.descriptor.id = entry.1 ∧ compile c.context entry.2.descriptor = .ok entry.2

/-- Keeps a type if it can be prepared, unless one of its identity is kept already. -/
def keep (c : Caster) (d : Descriptor) : Caster :=
  match compile c.context d with
  | .ok new =>
    if Entries.contains d.id c.cache then c else { c with cache := c.cache ++ [(d.id, new)] }
  | .error _ => c

/-- Keeping a coercion does not change the context. -/
theorem context_keep : (c.keep d).context = c.context := by
  rw [keep]
  split
  next => split <;> rfl
  next => rfl

/-- An entry is old, or it is that of the type that is kept. -/
theorem mem_cache_keep {entry : Nat × Coercion} (h : entry ∈ (c.keep d).cache) :
    entry ∈ c.cache ∨ entry.1 = d.id ∧ compile c.context d = .ok entry.2 := by
  rw [keep] at h
  split at h
  next new hcompile =>
    split at h
    · exact .inl h
    · refine (List.mem_append.mp h).imp_right fun hnew => ?_
      rw [List.mem_singleton.mp hnew]
      exact ⟨rfl, hcompile⟩
  next => exact .inl h

/-- The cached identities: those from before, and the new one if its type compiles. -/
theorem mem_keys_keep {id : Nat} :
    id ∈ Entries.keys (c.keep d).cache ↔
      (id = d.id ∧ ∃ new, compile c.context d = .ok new) ∨ id ∈ Entries.keys c.cache := by
  rw [keep]
  split
  next new hcompile =>
    split
    -- an identity that is known keeps the coercion that it has
    next hknown =>
      have hmem := Entries.contains_iff_mem_keys.mp hknown
      exact ⟨.inr, fun h => h.elim (fun hid => hid.1 ▸ hmem) fun h => h⟩
    next =>
      rw [Entries.keys, List.map_append, List.mem_append, List.map_singleton, List.mem_singleton,
        or_comm]
      exact or_congr_left (and_iff_left ⟨new, hcompile⟩).symm
  next e hcompile =>
    refine (or_iff_right fun hprepared => ?_).symm
    obtain ⟨-, new, hnew⟩ := hprepared
    rw [hcompile] at hnew
    cases hnew

/-- Each identity is cached once. -/
theorem nodup_keys_keep (h : (Entries.keys c.cache).Nodup) :
    (Entries.keys (c.keep d).cache).Nodup := by
  rw [keep]
  split
  next new _ =>
    split
    next => exact h
    -- a coercion is added only under an identity that is not cached
    next hunknown =>
      have hfresh : d.id ∉ Entries.keys c.cache := fun hmem =>
        hunknown (Entries.contains_iff_mem_keys.mpr hmem)
      rw [Entries.keys, List.map_append, List.map_singleton]
      refine List.nodup_append.mpr ⟨h, List.pairwise_singleton _ _, ?_⟩
      intro id hid other hother heq
      have hid' : id = d.id := heq.trans (List.mem_singleton.mp hother)
      exact hfresh (hid' ▸ hid)
  next => exact h

/-- A coercion that is kept is the one that its type compiles to. -/
theorem Prepared.keep (h : c.Prepared) : (c.keep d).Prepared := by
  intro entry hentry
  rw [context_keep]
  obtain hold | ⟨hid, hcompile⟩ := mem_cache_keep hentry
  · exact h entry hold
  · have hd : entry.2.descriptor = d := by rw [compile_eq_ok hcompile]
    exact ⟨by rw [hd, hid], by rw [hd, hcompile]⟩

/-- With entries that are prepared, of which only the type itself is under its identity, a type is
    prepared as it is without the caster. -/
theorem coercion_eq (hprepared : c.Prepared)
    (hsame : ∀ entry ∈ c.cache, entry.1 = d.id → entry.2.descriptor = d) :
    c.coercion d = (compile c.context d).map fun new => (new, c.keep d) := by
  rw [coercion]
  cases hfind : Entries.find? d.id c.cache with
  -- what is cached under the identity is the coercion of the type, so that nothing changes
  | some known =>
    obtain ⟨id, hmem, hid⟩ := Entries.mem_of_find? hfind
    have hcompile := (hprepared _ hmem).2
    rw [hsame _ hmem (eq_of_beq hid)] at hcompile
    have hcontains : Entries.contains d.id c.cache = true := by
      rw [← Entries.isSome_find?, hfind]; rfl
    have hkeep : c.keep d = c := by
      unfold keep
      rw [hcompile]
      exact if_pos hcontains
    rw [hcompile, hkeep]
    rfl
  | none =>
    -- nothing is cached under the identity, so that what compiles is added
    have hcontains : ¬ Entries.contains d.id c.cache = true := by
      rw [← Entries.isSome_find?, hfind]; exact Bool.false_ne_true
    unfold keep
    cases compile c.context d with
    | ok new => simp only [Except.map, if_neg hcontains]
    | error e => rfl

/-- What a cast comes to follows from how the type is prepared. -/
theorem cast_eq (h : c.coercion d = (compile c.context d).map fun new => (new, c.keep d))
    (v : Value) : c.cast d v = (Conform.cast c.context d v, c.keep d) := by
  rw [cast, Conform.cast, h, keep]
  cases compile c.context d <;> rfl

end Caster

/-- A caster in use, with what the caller holds and the state of the host. -/
structure Session (σ : Type) where
  caster : Caster
  handles : List Descriptor
  coercions : List Coercion
  host : σ

/-- What may be done with a caster and with the types that there are. -/
inductive Operation
  | create (id : Nat) (shape : Shape)
  | share (d : Descriptor)
  | drop (place : Nat)
  | prepare (d : Descriptor)
  | release (place : Nat)
  | cast (d : Descriptor) (v : Value)
  | clear

namespace Operation

/-- The operation prepares a type of an identity, and that succeeds. -/
def Prepares (ctx : Context) (id : Nat) : Operation → Prop
  | prepare d => id = d.id ∧ ∃ new, compile ctx d = .ok new
  | cast d _ => id = d.id ∧ ∃ new, compile ctx d = .ok new
  | _ => False

/-- A type of an identity was prepared after the last time that the cache was cleared. -/
def PreparedSinceClear (ctx : Context) (id : Nat) (history : List Operation) : Prop :=
  ∃ before op after, history = before ++ op :: after ∧ op.Prepares ctx id ∧ clear ∉ after

variable {ctx : Context} {id : Nat}

/-- Before the first operation nothing is prepared. -/
theorem not_preparedSinceClear_nil : ¬ PreparedSinceClear ctx id [] := by
  rintro ⟨before, op, after, hsplit, -⟩
  exact List.append_ne_nil_of_right_ne_nil before (List.cons_ne_nil op after) hsplit.symm

/-- The last operation prepares, or it is not a clear and the history before it has prepared. -/
theorem preparedSinceClear_concat {history : List Operation} {op : Operation} :
    PreparedSinceClear ctx id (history ++ [op]) ↔
      op.Prepares ctx id ∨ op ≠ clear ∧ PreparedSinceClear ctx id history := by
  constructor
  · rintro ⟨before, first, after, hsplit, hprepares, hclear⟩
    -- the last operation is the one that prepares, or the last of those after it
    obtain rfl | ⟨after', last, rfl⟩ := after.eq_nil_or_concat
    · obtain ⟨-, hop⟩ := List.append_inj' hsplit rfl
      cases hop
      exact .inl hprepares
    · rw [List.concat_eq_append, ← List.cons_append, ← List.append_assoc] at hsplit
      obtain ⟨hhistory, hop⟩ := List.append_inj' hsplit rfl
      cases hop
      rw [List.concat_eq_append, List.mem_append, not_or] at hclear
      refine .inr ⟨fun h => hclear.2 (h ▸ List.mem_singleton_self _), ?_⟩
      exact ⟨before, first, after', hhistory, hprepares, hclear.1⟩
  · rintro (hprepares | ⟨hop, before, first, after, rfl, hprepares, hclear⟩)
    · exact ⟨history, op, [], rfl, hprepares, List.not_mem_nil⟩
    · refine ⟨before, first, after ++ [op], by simp, hprepares, fun hmem => ?_⟩
      rw [List.mem_append, List.mem_singleton] at hmem
      exact hmem.elim hclear fun h => hop h.symm

end Operation

namespace Session

variable {σ : Type} {answer : (request : Request) → StateM σ request.Reply} {ctx : Context}
  {s s' : Session σ} {d : Descriptor}

/-- The types that are held by the caller, by coercions, by the cache and by the conversions. -/
def held (s : Session σ) : List Descriptor :=
  s.handles ++ s.coercions.map Coercion.descriptor ++
    s.caster.cache.map (fun entry => entry.2.descriptor) ++
    s.caster.context.conversions.entries.map Prod.fst

/-- A type is alive as long as it is a part of a type that is held. -/
def Live (s : Session σ) (d : Descriptor) : Prop :=
  ∃ root ∈ s.held, d.PartOf root

/-- An identity belongs to one live type. -/
def Coherent (s : Session σ) : Prop :=
  ∀ d e, s.Live d → s.Live e → d.id = e.id → d = e

/-- Whether an operation can take place: it is about live types, and a new type is made of live
    types and takes an identity that no live type has. -/
def Admits (s : Session σ) : Operation → Prop
  | .create id shape => (∀ d ∈ shape.parts, s.Live d) ∧ ∀ d, s.Live d → d.id ≠ id
  | .share d => s.Live d
  | .prepare d => s.Live d
  | .cast d _ => s.Live d
  | _ => True

/-- The session after an operation. -/
def perform (answer : (request : Request) → StateM σ request.Reply) (s : Session σ) :
    Operation → Session σ
  | .create id shape => { s with handles := .node id shape :: s.handles }
  | .share d => { s with handles := d :: s.handles }
  | .drop place => { s with handles := s.handles.eraseIdx place }
  | .prepare d =>
    match s.caster.coercion d with
    | .ok (prepared, caster) => { s with caster, coercions := prepared :: s.coercions }
    | .error _ => s
  | .release place => { s with coercions := s.coercions.eraseIdx place }
  | .cast d v =>
    let (program, caster) := s.caster.cast d v
    { s with caster, host := ((program.run answer).run s.host).2 }
  | .clear => { s with caster := s.caster.clear }

/-- Operations that take place one after the other. -/
inductive Runs (answer : (request : Request) → StateM σ request.Reply) (s : Session σ) :
    List Operation → Session σ → Prop
  | start : Runs answer s [] s
  | next {history : List Operation} {s' : Session σ} {op : Operation}
      (before : Runs answer s history s') (admits : s'.Admits op) :
    Runs answer s (history ++ [op]) (s'.perform answer op)

/-! ## What every operation preserves -/

/-- Identities tell live types apart, and every entry is prepared. -/
structure Sound (ctx : Context) (s : Session σ) : Prop where
  context : s.caster.context = ctx
  coherent : s.Coherent
  prepared : s.caster.Prepared
  nodup : (Entries.keys s.caster.cache).Nodup

/-- A type is held by a handle, a coercion, the cache or the conversions. -/
theorem mem_held : d ∈ s.held ↔ ((d ∈ s.handles ∨ ∃ c ∈ s.coercions, c.descriptor = d) ∨
    ∃ entry ∈ s.caster.cache, entry.2.descriptor = d) ∨
    ∃ entry ∈ s.caster.context.conversions.entries, entry.1 = d := by
  rw [held, List.mem_append, List.mem_append, List.mem_append, List.mem_map, List.mem_map,
    List.mem_map]

/-- What is held is live. -/
theorem live_of_mem_held (h : d ∈ s.held) : s.Live d := ⟨d, h, .whole⟩

/-- The type of a cached coercion is live. -/
theorem live_of_mem_cache {entry : Nat × Coercion} (h : entry ∈ s.caster.cache) :
    s.Live entry.2.descriptor :=
  live_of_mem_held (mem_held.mpr (.inl (.inr ⟨entry, h, rfl⟩)))

/-- A session in which nothing is held but live types has no other live types. -/
theorem Coherent.of_held (h : s.Coherent) (hheld : ∀ root ∈ s'.held, s.Live root) :
    s'.Coherent := by
  have hlive (d : Descriptor) : s'.Live d → s.Live d := by
    rintro ⟨root, hroot, hd⟩
    obtain ⟨top, htop, hpart⟩ := hheld root hroot
    exact ⟨top, htop, hd.trans hpart⟩
  exact fun d e hd he => h d e (hlive d hd) (hlive e he)

/-- A live type is prepared as it is without the caster. -/
theorem Sound.coercion_eq (h : s.Sound ctx) (hd : s.Live d) :
    s.caster.coercion d = (compile ctx d).map fun new => (new, s.caster.keep d) := by
  rw [← h.context]
  refine Caster.coercion_eq h.prepared fun entry hentry hid => ?_
  refine h.coherent _ _ (live_of_mem_cache hentry) hd ?_
  rw [(h.prepared entry hentry).1, hid]

/-- In a sound state a cast through the caster is the cast of the type. -/
theorem Sound.cast_eq (h : s.Sound ctx) (hd : s.Live d) (v : Value) :
    s.caster.cast d v = (Conform.cast ctx d v, s.caster.keep d) := by
  obtain rfl := h.context
  exact Caster.cast_eq (h.coercion_eq hd) v

/-- To prepare a type that cannot be prepared does nothing. -/
theorem Sound.perform_prepare (h : s.Sound ctx) (hd : s.Live d) :
    s.perform answer (.prepare d) = match compile ctx d with
      | .ok new => { s with caster := s.caster.keep d, coercions := new :: s.coercions }
      | .error _ => s := by
  rw [perform, h.coercion_eq hd]
  cases compile ctx d <;> rfl

/-- Preparing keeps the coercion of the type. -/
theorem Sound.caster_prepare (h : s.Sound ctx) (hd : s.Live d) :
    (s.perform answer (.prepare d)).caster = s.caster.keep d := by
  rw [h.perform_prepare hd, Caster.keep, h.context]
  cases compile ctx d <;> rfl

/-- Casting keeps the coercion of the type. -/
theorem Sound.caster_cast (h : s.Sound ctx) (hd : s.Live d) (v : Value) :
    (s.perform answer (.cast d v)).caster = s.caster.keep d := by
  rw [perform, h.cast_eq hd]

/-- A session in which a live type has been prepared is sound if the caller was given nothing else
    but what was prepared. -/
theorem Sound.keep (h : s.Sound ctx) (hd : s.Live d) (hcaster : s'.caster = s.caster.keep d)
    (hhandles : s'.handles = s.handles)
    (hcoercions : ∀ c ∈ s'.coercions, c ∈ s.coercions ∨ c.descriptor = d) : s'.Sound ctx where
  context := by rw [hcaster, Caster.context_keep, h.context]
  coherent := by
    refine h.coherent.of_held fun root hroot => ?_
    rw [mem_held, hcaster, hhandles, Caster.context_keep] at hroot
    -- whatever is held was held before, or is the type itself
    obtain ((hhandle | ⟨c, hc, rfl⟩) | ⟨entry, hentry, rfl⟩) | hconversion := hroot
    · exact live_of_mem_held (mem_held.mpr (.inl (.inl (.inl hhandle))))
    · obtain hold | rfl := hcoercions c hc
      · exact live_of_mem_held (mem_held.mpr (.inl (.inl (.inr ⟨c, hold, rfl⟩))))
      · exact hd
    · obtain hold | ⟨-, hcompile⟩ := Caster.mem_cache_keep hentry
      · exact live_of_mem_cache hold
      · rw [compile_eq_ok hcompile]; exact hd
    · exact live_of_mem_held (mem_held.mpr (.inr hconversion))
  prepared := by rw [hcaster]; exact h.prepared.keep
  nodup := by rw [hcaster]; exact Caster.nodup_keys_keep h.nodup

/-- A session with the same caster is sound if identities still tell its live types apart. -/
theorem Sound.of_caster_eq (h : s.Sound ctx) (hcaster : s'.caster = s.caster)
    (hcoherent : s'.Coherent) : s'.Sound ctx where
  context := by rw [hcaster, h.context]
  coherent := hcoherent
  prepared := by rw [hcaster]; exact h.prepared
  nodup := by rw [hcaster]; exact h.nodup

/-- A new type is made of live types, and its identity is new. -/
theorem Coherent.create (h : s.Coherent) {id : Nat} {shape : Shape}
    (hadmits : s.Admits (.create id shape)) :
    (s.perform answer (.create id shape)).Coherent := by
  obtain ⟨hparts, hnew⟩ := hadmits
  -- what is live now is the new type or was live before
  have hlive (d : Descriptor) (hd : (s.perform answer (.create id shape)).Live d) :
      d = .node id shape ∨ s.Live d := by
    obtain ⟨root, hroot, hd⟩ := hd
    obtain rfl | hold := List.mem_cons.mp hroot
    · obtain rfl | ⟨e, he, hd⟩ := Descriptor.partOf_node_iff.mp hd
      · exact .inl rfl
      · obtain ⟨top, htop, hpart⟩ := hparts e he
        exact .inr ⟨top, htop, hd.trans hpart⟩
    · exact .inr ⟨root, hold, hd⟩
  intro d e hd he hid
  -- the new type has an identity that no live one has
  obtain rfl | hd := hlive d hd
  · obtain rfl | he := hlive e he
    · rfl
    · exact absurd hid.symm (hnew e he)
  · obtain rfl | he := hlive e he
    · exact absurd hid (hnew d hd)
    · exact h d e hd he hid

/-- An operation that can take place leaves a sound session sound. -/
theorem Sound.perform (h : s.Sound ctx) {op : Operation} (hadmits : s.Admits op) :
    (s.perform answer op).Sound ctx := by
  -- one operation after the other: those that cast or prepare keep a coercion, the others let go
  cases op with
  | create id shape => exact h.of_caster_eq rfl (h.coherent.create hadmits)
  | share d =>
    refine h.of_caster_eq rfl (h.coherent.of_held fun root hroot => ?_)
    obtain rfl | hold := List.mem_cons.mp hroot
    · exact hadmits
    · exact live_of_mem_held hold
  | drop place =>
    refine h.of_caster_eq rfl (h.coherent.of_held fun root hroot => live_of_mem_held ?_)
    rw [mem_held] at hroot ⊢
    exact hroot.imp_left (Or.imp_left (Or.imp_left List.mem_of_mem_eraseIdx))
  | prepare d =>
    rw [h.perform_prepare hadmits]
    cases hcompile : compile ctx d with
    | ok new =>
      refine h.keep hadmits rfl rfl fun c hc => ?_
      obtain rfl | hold := List.mem_cons.mp hc
      · exact .inr (by rw [compile_eq_ok hcompile])
      · exact .inl hold
    | error e => exact h
  | release place =>
    refine h.of_caster_eq rfl (h.coherent.of_held fun root hroot => live_of_mem_held ?_)
    rw [mem_held] at hroot ⊢
    exact hroot.imp_left (Or.imp_left (Or.imp_right fun ⟨c, hc, hroot⟩ =>
      ⟨c, List.mem_of_mem_eraseIdx hc, hroot⟩))
  | cast d v =>
    exact h.keep hadmits (h.caster_cast hadmits v) rfl fun c hc => .inl hc
  | clear =>
    refine ⟨h.context, h.coherent.of_held fun root hroot => live_of_mem_held ?_, ?_, ?_⟩
    · rw [mem_held] at hroot ⊢
      exact hroot.imp_left (Or.imp_right fun ⟨entry, hentry, _⟩ => absurd hentry List.not_mem_nil)
    -- nothing is cached any longer
    · exact fun entry hentry => absurd hentry List.not_mem_nil
    · exact List.nodup_nil

/-- An operation adds what it prepares to the cache, and takes nothing out unless it clears it. -/
theorem Sound.mem_keys_perform (h : s.Sound ctx) {op : Operation} (hadmits : s.Admits op)
    {id : Nat} :
    id ∈ Entries.keys (s.perform answer op).caster.cache ↔
      op.Prepares ctx id ∨ op ≠ .clear ∧ id ∈ Entries.keys s.caster.cache := by
  -- only these three touch the cache
  cases op with
  | prepare d =>
    rw [h.caster_prepare hadmits, Caster.mem_keys_keep, h.context]
    exact or_congr_right (and_iff_right nofun).symm
  | cast d v =>
    rw [h.caster_cast hadmits, Caster.mem_keys_keep, h.context]
    exact or_congr_right (and_iff_right nofun).symm
  | clear =>
    refine iff_of_false List.not_mem_nil ?_
    rintro (hprepares | ⟨hclear, -⟩)
    · exact hprepares
    · exact hclear rfl
  | _ => exact ⟨fun h => .inr ⟨nofun, h⟩, fun h => h.elim False.elim And.right⟩

/-! ## Sessions from a new caster -/

/-- A session agrees, after a history, with casting without a caster. -/
structure Faithful (ctx : Context) (history : List Operation) (s : Session σ) : Prop where
  /-- An entry is a live type of its identity with the coercion of this very type. -/
  entry : ∀ id c, (id, c) ∈ s.caster.cache →
    s.Live c.descriptor ∧ c.descriptor.id = id ∧ compile ctx c.descriptor = .ok c
  /-- A cast is the same program, which ends alike and puts the same requests with any host. -/
  cast : ∀ d v, s.Live d → (s.caster.cast d v).1 = Conform.cast ctx d v
  /-- A type is prepared to the same coercion, or with the same failure. -/
  coercion : ∀ d, s.Live d → (s.caster.coercion d).map Prod.fst = compile ctx d
  /-- A type that cannot be prepared leaves the caster as it is. -/
  unchanged : ∀ d e, s.Live d → compile ctx d = .error e →
    ∀ answer, (s.perform answer (.prepare d)).caster = s.caster
  /-- Every identity has one entry. -/
  nodup : (Entries.keys s.caster.cache).Nodup
  /-- The identities are those that were prepared since the cache was cleared last. -/
  mem_keys : ∀ id, id ∈ Entries.keys s.caster.cache ↔
    Operation.PreparedSinceClear ctx id history

/-- Operations on a new caster leave the session sound, with what they prepared in the cache. -/
theorem Runs.sound {history : List Operation} (hrun : s.Runs answer history s')
    (hnew : s.caster = .new ctx) (hcoherent : s.Coherent) :
    s'.Sound ctx ∧ ∀ id, id ∈ Entries.keys s'.caster.cache ↔
      Operation.PreparedSinceClear ctx id history := by
  -- the invariant holds of the empty cache and is kept by every operation
  induction hrun with
  | start =>
    refine ⟨⟨by rw [hnew]; rfl, hcoherent, ?_, ?_⟩, fun id => ?_⟩ <;> rw [hnew]
    · exact fun entry hentry => absurd hentry List.not_mem_nil
    · exact List.nodup_nil
    · exact iff_of_false List.not_mem_nil Operation.not_preparedSinceClear_nil
  | next before hadmits ih =>
    obtain ⟨hsound, hkeys⟩ := ih
    refine ⟨hsound.perform hadmits, fun id => ?_⟩
    rw [hsound.mem_keys_perform hadmits, hkeys, Operation.preparedSinceClear_concat]

/-- After any operations on a new caster, in whatever order types were created and dropped and their
    identities given to others, the caster casts and prepares as is done without it. -/
theorem faithful_of_runs {history : List Operation} (hrun : s.Runs answer history s')
    (hnew : s.caster = .new ctx) (hcoherent : s.Coherent) : s'.Faithful ctx history := by
  -- all of it is read off the invariant of the state that the run ends in
  obtain ⟨hsound, hkeys⟩ := hrun.sound hnew hcoherent
  refine ⟨fun id c hentry => ?_, fun d v hd => ?_, fun d hd => ?_, fun d e hd hcompile answer => ?_,
    hsound.nodup, hkeys⟩
  · obtain ⟨hid, hcompile⟩ := hsound.prepared _ hentry
    rw [hsound.context] at hcompile
    exact ⟨live_of_mem_cache hentry, hid, hcompile⟩
  · rw [hsound.cast_eq hd]
  · rw [hsound.coercion_eq hd]
    cases compile ctx d <;> rfl
  · rw [hsound.caster_prepare hd, Caster.keep, hsound.context, hcompile]

/-- Settings as usual, and a converter for a type that lists can be made of. -/
def convertingContext : Context where
  conversions := Conversions.empty.insert (.node 0 .any) ⟨0⟩

/-- A host that gives back what it is to convert, and counts the requests. -/
def countingHost : (request : Request) → StateM Nat request.Reply
  | .convert _ v => modifyGet fun count => (.ok v, count + 1)
  | .call .. => modifyGet fun count => (.ok .none, count + 1)
  | .produce _ => modifyGet fun count => (.none, count + 1)

/-- A list type is created, used and dropped, and once the cache lets go of it a text type is
    created under its identity. -/
def reuse : List Operation :=
  [.create 1 (.listOf (.node 0 .any)), .cast (.node 1 (.listOf (.node 0 .any))) (.list [.none]),
    .drop 0, .clear, .create 1 (.primitive .text), .prepare (.node 1 (.primitive .text))]

/-- The session after the first operations of `reuse`. -/
def reusing (count : Nat) : Session Nat :=
  (reuse.take count).foldl (perform countingHost) ⟨.new convertingContext, [], [], 0⟩

/-- Where one type without parts is held, no other is live. -/
theorem eq_of_live (h : s.held = [.node 0 .any]) (hd : s.Live d) : d = .node 0 .any := by
  obtain ⟨root, hroot, hd⟩ := hd
  rw [h, List.mem_singleton] at hroot
  obtain rfl | ⟨e, he, -⟩ := Descriptor.partOf_node_iff.mp (hroot ▸ hd)
  · rfl
  · exact absurd he List.not_mem_nil

/-- The history: an identity is cast with, dropped, and given to another type. -/
theorem runs_reuse : (reusing 0).Runs countingHost reuse (reusing 6) := by
  have hcreate : (reusing 0).Admits (.create 1 (.listOf (.node 0 .any))) :=
    ⟨fun d hd => live_of_mem_held hd, fun d hd => by rw [eq_of_live rfl hd]; exact Nat.zero_ne_one⟩
  have hcast : (reusing 1).Admits (.cast (.node 1 (.listOf (.node 0 .any))) (.list [.none])) :=
    live_of_mem_held List.mem_cons_self
  have hdrop : (reusing 2).Admits (.drop 0) := trivial
  have hclear : (reusing 3).Admits .clear := trivial
  -- the cache has been cleared, so that the converter holds the only live type
  have hagain : (reusing 4).Admits (.create 1 (.primitive .text)) :=
    ⟨fun d hd => absurd hd List.not_mem_nil,
      fun d hd => by rw [eq_of_live rfl hd]; exact Nat.zero_ne_one⟩
  have hprepare : (reusing 5).Admits (.prepare (.node 1 (.primitive .text))) :=
    live_of_mem_held List.mem_cons_self
  have hreused := (((Runs.start.next hcreate).next hcast).next hdrop).next hclear
  exact (hreused.next hagain).next hprepare

/-- The coercion that is cached under the identity is the one of the new type. -/
theorem faithful_of_runs_reuse :
    (reusing 0).Runs countingHost reuse (reusing 6) ∧
      (reusing 6).Faithful convertingContext reuse := by
  refine ⟨runs_reuse, faithful_of_runs runs_reuse rfl fun d e hd he _ => ?_⟩
  rw [eq_of_live rfl hd, eq_of_live rfl he]

end Session

end Conform
