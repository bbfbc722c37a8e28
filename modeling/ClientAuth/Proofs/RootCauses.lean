import ClientAuth.Manager.Error
import Mathlib.Logic.ExistsUnique
import Mathlib.Logic.Relation

/-!
# Root causes

A failure tells what it says and which failure caused it (`Traceable`). Whoever looks for the root cause goes from source
to source until there is none; since that comes to an end, there is exactly one last failure (`existsUnique_endsIn`), and
a chain is all that can be seen of a failure on the way (`Traceable.endsIn_chain`).

Layers wrap the failures below them, some in words of their own and some without any, so that a wrapped failure is one
step further from its root cause or none (`Report.Wraps.chain_cases`). Neither changes what the root cause says: the
innermost message of a report, wrapped in whatever layers, is what the last failure of its source chain says, and so is
that of every failure of a manager (`Report.root_cause_survives`).
-/

namespace ClientAuth

open Relation (ReflTransGen)

/-- Failures as others see them: what each of them says, and which one caused it. From source to source one comes to an
end. -/
structure Traceable (ε : Type) where
  message : ε → Wording
  source? : ε → Option ε
  finite : WellFounded fun source e => source? e = some source

namespace Traceable

variable {ε : Type} (t : Traceable ε)

/-- One failure is caused by another. -/
def CausedBy (e source : ε) : Prop := t.source? e = some source

/-- From source to source one comes to a last failure, which nothing else caused. -/
def EndsIn (e last : ε) : Prop := ReflTransGen t.CausedBy e last ∧ t.source? last = none

variable {t}

theorem endsIn_iff_of_none {e last : ε} (h : t.source? e = none) : t.EndsIn e last ↔ last = e := by
  constructor
  · rintro ⟨hreach, -⟩
    rcases hreach.cases_head with rfl | ⟨source, hsource, -⟩
    · rfl
    · rw [CausedBy, h] at hsource
      exact absurd hsource nofun
  · rintro rfl
    exact ⟨.refl, h⟩

theorem endsIn_iff_of_some {e source last : ε} (h : t.source? e = some source) :
    t.EndsIn e last ↔ t.EndsIn source last := by
  constructor
  · rintro ⟨hreach, hlast⟩
    rcases hreach.cases_head with rfl | ⟨next, hnext, hreach⟩
    · rw [h] at hlast
      exact absurd hlast nofun
    · obtain rfl : source = next := Option.some.inj (h.symm.trans hnext)
      exact ⟨hreach, hlast⟩
  · rintro ⟨hreach, hlast⟩
    exact ⟨.head h hreach, hlast⟩

variable (t)

/-- There is one root cause and no other. -/
theorem existsUnique_endsIn (e : ε) : ∃! last, t.EndsIn e last := by
  induction e using t.finite.induction with
  | h e ih =>
    cases hsource : t.source? e with
    | none => simp only [endsIn_iff_of_none hsource, existsUnique_eq]
    | some source => simpa only [endsIn_iff_of_some hsource] using ih source hsource

/-- What a failure and its causes say, as a chain. -/
def chain (e : ε) : CauseChain :=
  match _hsource : t.source? e with
  | none => .root (t.message e)
  | some source => .under (t.message e) (chain source)
termination_by t.finite.wrap e
decreasing_by exact _hsource

theorem chain_of_none {e : ε} (h : t.source? e = none) : t.chain e = .root (t.message e) := by
  rw [chain]
  split
  next => rfl
  next source hsource => exact absurd (hsource.symm.trans h) nofun

theorem chain_of_some {e source : ε} (h : t.source? e = some source) :
    t.chain e = .under (t.message e) (t.chain source) := by
  rw [chain]
  split
  next hsource => exact absurd (hsource.symm.trans h) nofun
  next next' hnext =>
    obtain rfl : next' = source := Option.some.inj (hnext.symm.trans h)
    rfl

theorem message_chain (e : ε) : (t.chain e).message = t.message e := by
  cases hsource : t.source? e with
  | none => rw [t.chain_of_none hsource, CauseChain.root]
  | some source => rw [t.chain_of_some hsource, CauseChain.under]

/-- The source of a chain is the chain of the source. -/
theorem source?_chain (e : ε) : (t.chain e).source? = (t.source? e).map t.chain := by
  cases hsource : t.source? e with
  | none => rw [t.chain_of_none hsource, CauseChain.source?_root, Option.map_none]
  | some source => rw [t.chain_of_some hsource, CauseChain.source?_under, Option.map_some]

end Traceable

namespace CauseChain

/-- A chain gets shorter from source to source. -/
theorem length_of_source? {c d : CauseChain} (h : c.source? = some d) : d.causes.length < c.causes.length := by
  rw [source?_eq_some_iff.1 h, toList, List.length_cons]
  exact Nat.lt_succ_self _

/-- Chains are failures in their own right. -/
def traceable : Traceable CauseChain where
  message := message
  source? := source?
  finite := Subrelation.wf length_of_source? (measure fun c : CauseChain => c.causes.length).wf

theorem innermost_of_none {c : CauseChain} (h : c.source? = none) : c.innermost = c.message := by
  rw [innermost, source?_eq_none_iff.1 h, List.getLastD_nil]

/-- A step towards the root cause does not change what it says. -/
theorem innermost_of_causedBy {c d : CauseChain} (h : traceable.CausedBy c d) : c.innermost = d.innermost := by
  have hcauses : c.causes = d.message :: d.causes := source?_eq_some_iff.1 h
  rw [innermost, hcauses, List.getLastD_cons, innermost]

/-- Nor do any number of steps. -/
theorem innermost_of_reaches {c d : CauseChain} (h : ReflTransGen traceable.CausedBy c d) :
    c.innermost = d.innermost := by
  induction h with
  | refl => rfl
  | tail _ hstep ih => exact ih.trans (innermost_of_causedBy hstep)

/-- What is innermost is what the last failure of the source chain says. -/
theorem innermost_of_endsIn {c last : CauseChain} (h : traceable.EndsIn c last) : c.innermost = last.message :=
  (innermost_of_reaches h.1).trans (innermost_of_none h.2)

end CauseChain

namespace Traceable

variable {ε : Type} {t : Traceable ε}

/-- The chain of a failure leads to the chain of its root cause. -/
theorem endsIn_chain {e last : ε} (h : t.EndsIn e last) :
    CauseChain.traceable.EndsIn (t.chain e) (t.chain last) := by
  obtain ⟨hreach, hlast⟩ := h
  refine ⟨hreach.lift t.chain fun a b hab => ?_, ?_⟩
  · change (t.chain a).source? = some (t.chain b)
    rw [source?_chain, hab, Option.map_some]
  · change (t.chain last).source? = none
    rw [source?_chain, hlast, Option.map_none]

theorem innermost_chain {e last : ε} (h : t.EndsIn e last) : (t.chain e).innermost = t.message last := by
  rw [CauseChain.innermost_of_endsIn (endsIn_chain h), message_chain]

end Traceable

/-- What the reader of PEM armour reports: a failure of its own, or one of the base64 within. -/
def Pem.traceable : Traceable (Pem.Error ⊕ Base64.Error) where
  message
    | .inl e => e.chain.message
    | .inr e => e.message
  source?
    | .inl (.invalidData cause) => some (.inr cause)
    | _ => none
  finite := by
    refine Subrelation.wf (r := InvImage (· < ·) fun e : Pem.Error ⊕ Base64.Error => if e.isLeft then 1 else 0) ?_
      (InvImage.wf _ Nat.lt_wfRel.wf)
    intro source e h
    split at h
    next cause =>
      obtain rfl : .inr cause = source := Option.some.inj h
      exact Nat.zero_lt_one
    next => exact absurd h nofun

/-- A failure with PEM armour is told as it is traced. -/
theorem Pem.chain_traceable (e : Error) : Pem.traceable.chain (.inl e) = e.chain := by
  cases e with
  | invalidData cause =>
    have hsource : Pem.traceable.source? (.inl (.invalidData cause)) = some (.inr cause) := rfl
    have hcause : Pem.traceable.chain (.inr cause) = .root cause.message := Traceable.chain_of_none _ rfl
    rw [Traceable.chain_of_some _ hsource, hcause]
    rfl
  | malformedFraming | missingBeginTag | missingEndTag | mismatchedTags | invalidHeader =>
    exact Traceable.chain_of_none _ rfl

/-- A failure as it can be met with: as a layer reports it, or as another library tells it. -/
inductive Report where
  | foreign (cause : CauseChain)
  | decode (r : DecodeReport)
  | certificate (r : CertificateReport)
  | transport (r : TransportReport)
  | vault (r : VaultReport)
  | storage (r : StorageReport)
  | auth (r : AuthReport)

namespace Report

def chain : Report → CauseChain
  | foreign cause => cause
  | decode r => r.chain
  | certificate r => r.chain
  | transport r => r.chain
  | vault r => r.chain
  | storage r => r.chain
  | auth r => r.chain

/-- What the root cause of a report says. -/
def innermost (f : Report) : Wording := f.chain.innermost

/-- A failure is reported by the next layer. Where a layer takes a failure over from several layers below, that is several
of these one after the other. -/
inductive Wraps : Report → Report → Prop
  | decodeBase64 (cause : CauseChain) : Wraps (.foreign cause) (.decode (.base64 cause))
  | decodePem (cause : CauseChain) : Wraps (.foreign cause) (.decode (.pem cause))
  | decodeDer (cause : CauseChain) : Wraps (.foreign cause) (.decode (.der cause))
  | certificate (r : DecodeReport) : Wraps (.decode r) (.certificate (.decode r))
  | transportIo (cause : CauseChain) : Wraps (.foreign cause) (.transport (.io cause))
  | transportMalformed (cause : CauseChain) : Wraps (.foreign cause) (.transport (.malformed cause))
  | vaultText (cause : CauseChain) : Wraps (.foreign cause) (.vault (.plaintextNotUtf8 cause))
  | vaultBase64 (cause : CauseChain) : Wraps (.foreign cause) (.vault (.base64 cause))
  | vaultJson (cause : CauseChain) : Wraps (.foreign cause) (.vault (.json cause))
  | vaultIo (cause : CauseChain) : Wraps (.foreign cause) (.vault (.io cause))
  | storage (context : String) (r : VaultReport) : Wraps (.vault r) (.storage ⟨context, r⟩)
  | authCertificate (r : CertificateReport) : Wraps (.certificate r) (.auth (.certificate r))
  | authIo (cause : CauseChain) : Wraps (.foreign cause) (.auth (.io cause))
  | authTransport (r : TransportReport) : Wraps (.transport r) (.auth (.transport r))
  | authStorage (r : StorageReport) : Wraps (.storage r) (.auth (.storage r))

/-- A layer hands a failure on as it is, or becomes caused by it. -/
theorem Wraps.chain_cases {f g : Report} (h : Wraps f g) :
    g.chain = f.chain ∨ CauseChain.traceable.CausedBy g.chain f.chain := by
  cases h with
  | transportMalformed => exact .inr rfl
  | vaultText => exact .inr rfl
  | storage => exact .inr rfl
  | decodeBase64 | decodePem | decodeDer | certificate | transportIo | vaultBase64 | vaultJson | vaultIo
  | authCertificate | authIo | authTransport | authStorage => exact .inl rfl

/-- From a report that wraps a failure, in however many layers, one comes to that failure. -/
theorem reaches_of_wraps {f g : Report} (h : ReflTransGen Wraps f g) :
    ReflTransGen CauseChain.traceable.CausedBy g.chain f.chain := by
  induction h with
  | refl => exact .refl
  | tail _ hwraps ih =>
    rcases hwraps.chain_cases with hsame | hcaused
    · rwa [hsame]
    · exact .head hcaused ih

theorem innermost_of_wraps {f g : Report} (h : ReflTransGen Wraps f g) : g.innermost = f.innermost :=
  CauseChain.innermost_of_reaches (reaches_of_wraps h)

end Report

/-- The failure below the manager that a failure of the manager comes from. -/
def AuthError.below? : AuthError → Option Report
  | certificate e => some (.certificate e.reported)
  | io e => some (.foreign e.chain)
  | transport e => some (.transport e.reported)
  | vault _ e => some (.vault e.reported)
  | invalidArgument _ | rejected _ | busy | cancelled => none

/-- A manager wraps the failures below it, those of a store under what it was doing. -/
theorem AuthError.wraps_below {e : AuthError} {f : Report} (h : e.below? = some f) :
    ReflTransGen Report.Wraps f (.auth e.reported) := by
  cases e with
  | certificate e =>
    cases h
    exact .single (.authCertificate _)
  | io e =>
    cases h
    exact .single (.authIo _)
  | transport e =>
    cases h
    exact .single (.authTransport _)
  | vault task e =>
    cases h
    exact (ReflTransGen.single (.storage task.message _)).tail (.authStorage _)
  | invalidArgument | rejected | busy | cancelled => cases h

namespace Report

/-- Whatever is reported, with whatever data, has one root cause, the last failure of its source chain, and the innermost
message is what that one says. To wrap a failure in any layers and under any contexts does not change it, and a manager
does no more than that to the failures below it. So the innermost message of a failure of another library, however deep
that is wrapped, is what the last failure in that library's own source chain says; of the library it is only assumed that
its source chains end. -/
theorem root_cause_survives :
    (∀ f : Report, ∃ last, CauseChain.traceable.EndsIn f.chain last ∧
      (∀ other, CauseChain.traceable.EndsIn f.chain other → other = last) ∧ f.innermost = last.message) ∧
    (∀ f g, ReflTransGen Wraps f g → g.innermost = f.innermost) ∧
    (∀ (e : AuthError) (f : Report), e.below? = some f → e.chain.innermost = f.innermost) ∧
    ∀ (ε : Type) (library : Traceable ε) (e last : ε) (g : Report), library.EndsIn e last →
      ReflTransGen Wraps (.foreign (library.chain e)) g → g.innermost = library.message last := by
  refine ⟨fun f => ?root, fun f g => innermost_of_wraps, fun e f h => innermost_of_wraps (AuthError.wraps_below h),
    fun ε library e last g hlast hwraps => ?foreign⟩
  case root =>
    obtain ⟨last, hlast, hunique⟩ := CauseChain.traceable.existsUnique_endsIn f.chain
    exact ⟨last, hlast, hunique, CauseChain.innermost_of_endsIn hlast⟩
  case foreign =>
    calc g.innermost = (library.chain e).innermost := innermost_of_wraps hwraps
      _ = library.message last := Traceable.innermost_chain hlast

/-- The base64 within PEM armour cannot be read. The manager hands that on through all layers, and what it says innermost
is what is said of the base64. -/
theorem root_cause_survives_armoured :
    let cause : Base64.Error := .invalidSymbol 33 4
    let e : AuthError := .certificate (.pem (.invalidData cause))
    Pem.traceable.EndsIn (.inl (.invalidData cause)) (.inr cause) ∧
      ReflTransGen Wraps (.foreign (Pem.traceable.chain (.inl (.invalidData cause)))) (.auth e.reported) ∧
      e.chain.innermost = some "Invalid symbol 33, offset 4." := by
  intro cause e
  have hlast : Pem.traceable.EndsIn (.inl (.invalidData cause)) (.inr cause) := ⟨.single rfl, rfl⟩
  have hwraps : ReflTransGen Wraps (.foreign (Pem.traceable.chain (.inl (.invalidData cause)))) (.auth e.reported) := by
    rw [Pem.chain_traceable]
    exact ((ReflTransGen.single (.decodePem _)).tail (.certificate _)).tail (.authCertificate _)
  exact ⟨hlast, hwraps, root_cause_survives.2.2.2 _ Pem.traceable _ _ _ hlast hwraps⟩

end Report

end ClientAuth
