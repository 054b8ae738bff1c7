import ProxyGateway.Pdgtx.CommitSafe

set_option autoImplicit false

/-!
# ProxyGateway.Pdgtx.Alone

A transaction alone in the world: nobody else writes while it is at work, so that what
it reads, derives and saves is a function of the world it starts in.

`execWith steady` is the meaning of operations with the choice to let the bookkeeping
(`meta.json`, `diff.txt`, candidates) succeed always. `alone` is the setting of a process
that nobody disturbs; it has to keep an assertion `I` of the world with every single
operation, so that `I` holds wherever the process is cut.

The reading steps of a commit are matched with pure functions of the production files:
`readAt`, `resolveAt` and `deriveAt`, the last of which yields all targets of the commit,
the derived ones included.
-/

namespace ProxyGateway.Pdgtx

open Method

/-! ### The setting -/

/-- `meta.json`, `diff.txt` and the candidates. -/
def Op.bookkeeping : Op → Bool
  | .storeMeta _ _ | .storeDiff _ | .storeSub _ .candidate _ _ => true
  | _ => false

/-- The choice an operation is carried out with. -/
def Op.choice (steady : Bool) (e : Op) (c : Choice) : Choice :=
  if steady && e.bookkeeping then { c with fault := .none } else c

/-- What an operation does, bookkeeping always succeeding when `steady`. -/
def execWith (steady : Bool) (H : Host) (pid : Pid) (e : Op) (c : Choice) (w : World) :
    e.Answer × World :=
  exec H pid e (e.choice steady c) w

theorem execWith_false (H : Host) (pid : Pid) : execWith false H pid = exec H pid := rfl

/-- A process alone that keeps `I` with every operation, under the choices considered. -/
abbrev aloneIf (ok : Choice → Prop) (steady : Bool) (H : Host) (pid : Pid) (I : World → Prop) :
    Setting Op Op.Answer Choice World :=
  Setting.solo (execWith steady H pid) ok (fun e w => ∀ c, I (execWith steady H pid e c w).2)

/-- A process alone that keeps `I` with every operation. -/
abbrev alone (steady : Bool) (H : Host) (pid : Pid) (I : World → Prop) :
    Setting Op Op.Answer Choice World :=
  aloneIf (fun _ => True) steady H pid I

/-- A method that returns or raises `r` and changes neither object nor world. -/
def Computes {σ α : Type} (S : Setting Op Op.Answer Choice World) (m : MethodOf σ α) (s : σ)
    (w : World) (r : Except Exn α) : Prop :=
  Meets S m s w (fun r' s' w' => r' = r ∧ s' = s ∧ w' = w)

section Rules

variable {ok : Choice → Prop} {steady : Bool} {H : Host} {pid : Pid} {I : World → Prop} {w : World}
  {α β σ : Type}
  {s : σ} {Q : Except Exn α → σ → World → Prop}

theorem stable_alone (J : σ → World → Prop) (s : σ) (w w' : World) (h : J s w)
    (hr : (aloneIf ok steady H pid I).rely w w') : J s w' := by
  cases hr
  exact h

theorem meets_ret_alone {a : α} (h : Q (.ok a) s w) :
    Meets (aloneIf ok steady H pid I) (ret a : MethodOf σ α) s w Q :=
  meets_ret (fun _ hw => by cases hw; exact h)

theorem meets_raise_alone {e : Exn} (h : Q (.error e) s w) :
    Meets (aloneIf ok steady H pid I) (raise e : MethodOf σ α) s w Q :=
  meets_raise (fun _ hw => by cases hw; exact h)

/-- One operation: `I` has to hold after it under every choice. -/
theorem sat_aloneIf {e : Op} {post : e.Answer → World → Prop}
    (h : ∀ c, I (execWith steady H pid e c w).2 ∧
      (ok c → post (execWith steady H pid e c w).1 (execWith steady H pid e c w).2)) :
    Prog.Sat (aloneIf ok steady H pid I) post (perform e) w := by
  refine Prog.sat_perform (fun v hv => ⟨fun c => ?_, fun c hc u hu => ?_⟩)
  · cases hv
    exact (h c).1
  · cases hv
    cases hu
    exact (h c).2 hc

theorem sat_alone {e : Op} {post : e.Answer → World → Prop}
    (h : ∀ c, I (execWith steady H pid e c w).2 ∧
      post (execWith steady H pid e c w).1 (execWith steady H pid e c w).2) :
    Prog.Sat (aloneIf ok steady H pid I) post (perform e) w :=
  sat_aloneIf (fun c => ⟨(h c).1, fun _ => (h c).2⟩)

/-- A write whose success gives `K`. -/
theorem meets_must_alone {p : Proc Done} {J K : World → Prop}
    (h : Prog.Sat (aloneIf ok steady H pid I) (fun done v => J v ∧ (done = true → K v)) p w) :
    Meets (aloneIf ok steady H pid I) (must p : MethodOf σ Unit) s w
      (fun r s' v => s' = s ∧ J v ∧ (r = .ok () → K v)) := by
  unfold must
  refine meets_call_bind h ?_
  rintro done v ⟨hv, hdone⟩
  cases done with
  | true => exact meets_ret_alone ⟨rfl, hv, fun _ => hdone rfl⟩
  | false => exact meets_raise_alone ⟨rfl, hv, fun hr => nomatch hr⟩

theorem execWith_quiet {e : Op} (h : e.quiet = true) (c : Choice) :
    (execWith steady H pid e c w).2 = w := exec_quiet h _ w

/-- Asking changes nothing. -/
theorem sat_quiet_alone {p : Proc α} (hp : Quiet p) (h : I w) :
    Prog.Sat (aloneIf ok steady H pid I) (fun _ v => v = w) p w := by
  refine Prog.Only.sat_keeps hp ?_ ?_ rfl
  · rintro a b rfl rfl
    rfl
  · rintro e he v rfl
    refine ⟨fun c => ?_, fun c _ => execWith_quiet he c⟩
    rw [execWith_quiet he]
    exact h

/-! ### Reading steps -/

theorem computes_ret (a : α) :
    Computes (aloneIf ok steady H pid I) (ret a : MethodOf σ α) s w (.ok a) :=
  meets_ret_alone ⟨rfl, rfl, rfl⟩

theorem computes_raise (e : Exn) :
    Computes (aloneIf ok steady H pid I) (raise e : MethodOf σ α) s w (.error e) :=
  meets_raise_alone ⟨rfl, rfl, rfl⟩

theorem computes_bind {m : MethodOf σ α} {f : α → MethodOf σ β} {r : Except Exn α}
    {g : α → Except Exn β} (hm : Computes (aloneIf ok steady H pid I) m s w r)
    (hf : ∀ a, Computes (aloneIf ok steady H pid I) (f a) s w (g a)) :
    Computes (aloneIf ok steady H pid I) (m.bind f) s w (r.bind g) := by
  refine meets_bind hm ?_ ?_
  · rintro a s' v ⟨hr, rfl, rfl⟩
    rw [← hr]
    exact hf a
  · rintro e s' v ⟨hr, rfl, rfl⟩
    rw [← hr]
    exact computes_raise e

/-- Continuing after a reading step. -/
theorem Computes.bind {m : MethodOf σ α} {f : α → MethodOf σ β} {r : Except Exn α}
    {Q : Except Exn β → σ → World → Prop} (hm : Computes (aloneIf ok steady H pid I) m s w r)
    (hok : ∀ a, r = .ok a → Meets (aloneIf ok steady H pid I) (f a) s w Q)
    (herr : ∀ e, r = .error e → Q (.error e) s w) :
    Meets (aloneIf ok steady H pid I) (m.bind f) s w Q := by
  refine meets_bind hm ?_ ?_
  · rintro a s' v ⟨hr, rfl, rfl⟩
    exact hok a hr.symm
  · rintro e s' v ⟨hr, rfl, rfl⟩
    exact meets_raise_alone (herr e hr.symm)

end Rules

/-- `_read_target` on production as it is. -/
def readAt (files : Path → Node) (p : Path) : Except Exn (Option (Bytes × Stat)) :=
  match files p with
  | .absent => .ok none
  | .file data st => .ok (some (data, st))
  | .link => .error .txError

/-- `_trusted_cert_dir` on production as it is. -/
def certDirAt (H : Host) (files : Path → Node) : Except Exn String :=
  match (files profilePath).data? with
  | none => .ok (trustedCertDir H.certDirEnv H.noSymlink [])
  | some raw => match H.decodeUtf8 raw with
    | some text => .ok (trustedCertDir H.certDirEnv H.noSymlink text)
    | none => .error .other

/-- The whitelist's answer, or `TxError`. -/
def whitelisted : Option Resolved → Except Exn Resolved
  | some r => .ok r
  | none => .error .txError

/-- `resolve_target` on production as it is. -/
def resolveAt (H : Host) (files : Path → Node) (name : Name) : Except Exn Resolved :=
  if isCert name then (certDirAt H files).bind (fun dir => whitelisted (resolveIn dir name))
  else whitelisted (resolveIn certDirDefault name)

/-- `stage_derived`: the targets afterwards. -/
def stageDerivedAt (H : Host) (files : Path → Node) (readSha : Dict Name (Option Digest))
    (targets : Dict Name Target) (name : Name) (data : Bytes) : Except Exn (Dict Name Target) :=
  (resolveAt H files name).bind (fun r =>
    (readAt files r.path).bind (fun cur =>
      .ok (targets.set name
        { path := r.path, mode := r.mode, validators := r.validators, data := some data,
          candidate := some (candidateLeaf targets.length name),
          expect := (readSha.get? name).getD (digestOf H cur), existed := cur.isSome })))

/-- The targets after all derivers, or the exception that ends the commit there. -/
def deriveAt (H : Host) (files : Path → Node) (readSha : Dict Name (Option Digest)) :
    List (Name × Deriver) → Dict Name Target → Except Exn (Dict Name Target)
  | [], targets => .ok targets
  | d :: rest, targets =>
      match d.2 (targets.map (fun p => (p.1, p.2.data))) files with
      | .data bytes => (stageDerivedAt H files readSha targets d.1 bytes).bind
          (deriveAt H files readSha rest)
      | .nothing | .refused | .raised => .error .refused

section Reading

variable {ok : Choice → Prop} {steady : Bool} {H : Host} {pid : Pid} {I : World → Prop} {w : World}
  {σ : Type} {s : σ}

theorem computes_readTarget (h : I w) (p : Path) :
    Computes (aloneIf ok steady H pid I) (readTarget p : MethodOf σ _) s w (readAt w.files p) := by
  unfold readTarget
  refine meets_call_bind (M := fun node v => node = w.files p ∧ v = w) ?_ ?_
  · exact sat_alone (fun c => ⟨by rw [execWith_quiet rfl]; exact h, rfl, rfl⟩)
  · rintro node v ⟨rfl, rfl⟩
    unfold readAt
    cases v.files p with
    | absent => exact computes_ret _
    | file data st => exact computes_ret _
    | link => exact computes_raise _

theorem computes_readCertDir (h : I w) :
    Computes (aloneIf ok steady H pid I) (readCertDir H : MethodOf σ _) s w (certDirAt H w.files) := by
  unfold readCertDir
  refine meets_call_bind (M := fun node v => node = w.files profilePath ∧ v = w) ?_ ?_
  · exact sat_alone (fun c => ⟨by rw [execWith_quiet rfl]; exact h, rfl, rfl⟩)
  · rintro node v ⟨rfl, rfl⟩
    unfold certDirAt
    cases (v.files profilePath).data? with
    | none => exact computes_ret _
    | some raw =>
        dsimp only
        cases H.decodeUtf8 raw with
        | none => exact computes_raise _
        | some text => exact computes_ret _

theorem computes_resolved (r : Option Resolved) :
    Computes (aloneIf ok steady H pid I) (resolved r : MethodOf σ _) s w (whitelisted r) := by
  cases r with
  | none => exact computes_raise _
  | some r => exact computes_ret _

theorem computes_resolveTarget (h : I w) (name : Name) :
    Computes (aloneIf ok steady H pid I) (resolveTarget H name : MethodOf σ _) s w
      (resolveAt H w.files name) := by
  unfold resolveTarget resolveAt
  split
  · exact computes_bind (computes_readCertDir h) (fun _ => computes_resolved _)
  · exact computes_resolved _

end Reading

end ProxyGateway.Pdgtx
