import WgManager.Wireguard.Host

/-!
# The public key of a host

`_ensure_keypair` draws a private key only when `test -s` finds none, and derives the public key
from the file each time.  Between the test and the write there is a window, and a run can be cut in
it: then the file is there and empty, and the next run draws.  Two runs in their windows at once
draw two keys.  This is all that can go wrong: `public_key_stable`.

On its way to the public key a run takes four steps that have to do with the private key, and only
these matter: which of them it still has before it (`Proc.stage`), and what it may take for granted
there (`Stage`).
-/

set_option autoImplicit false

namespace WgManager.Host

open Unix

/-! ## Stages -/

def Op.isKeyOp : Op → Bool
  | .testKey | .openKey | .genkey | .pubkey => true
  | _ => false

/-- The steps towards the public key that a run has before it. -/
def Proc.stage (p : Proc) : List Op := p.ops.filter Op.isKeyOp

/-- The stages of a run, with what it has returned: what holds of the key in each of them. -/
inductive Stage (programs : Programs) (m : Machine) : List Op → Option String → Prop
  | untested : Stage programs m [.testKey, .pubkey] none
  | opening (hempty : m.key = []) : Stage programs m [.openKey, .genkey, .pubkey] none
  | drawing (hempty : m.key = []) (hfile : (m.file .privatekey).isSome) :
    Stage programs m [.genkey, .pubkey] none
  | present (hkey : m.key ≠ []) : Stage programs m [.pubkey] none
  | returned (hkey : m.key ≠ []) :
    Stage programs m [] (some (PyStr.strip (String.ofList (programs.pubkey m.key))))
  /-- A run that leaves the key pair alone. -/
  | apart : Stage programs m [] none

theorem stage_ops (job : Job) : Proc.stage { ops := job.ops } =
    if job.provisions then [.testKey, .pubkey] else [] := by
  cases job <;> rfl

theorem stage_job (programs : Programs) (m : Machine) (job : Job) :
    Stage programs m (Proc.stage { ops := job.ops }) none := by
  rw [stage_ops]
  split
  · exact .untested
  · exact .apart

section

variable {programs : Programs} {input : List Char} {m m' : Machine} {p q : Proc} {op : Op}
  {ops : List Op} {pk : Option (List Char)} {k : Option String} {s : List Op}

/-- A run is where it was when the key is what it was. -/
theorem Stage.frame (h : Stage programs m s k) (hkey : m'.key = m.key)
    (hfile : (m.file .privatekey).isSome → (m'.file .privatekey).isSome) :
    Stage programs m' s k := by
  cases h with
  | untested => exact .untested
  | opening hempty => exact .opening (hkey ▸ hempty)
  | drawing hempty hsome => exact .drawing (hkey ▸ hempty) (hfile hsome)
  | present hne => exact .present (hkey ▸ hne)
  | returned hne =>
    rw [← hkey] at hne ⊢
    exact .returned hne
  | apart => exact .apart

/-- And when there was no key, unless it was about to draw one. -/
theorem Stage.frame_of_empty (h : Stage programs m s k) (hempty : m.key = [])
    (hs : Op.genkey ∉ s) : Stage programs m' s k := by
  cases h with
  | untested => exact .untested
  | opening | drawing => simp at hs
  | present hne | returned hne => exact absurd hempty hne
  | apart => exact .apart

/-- Only two steps change the text of the private key. -/
theorem key_exec (hopen : op ≠ .openKey) (hdraw : op ≠ .genkey) :
    (op.exec programs input m p).1.key = m.key ∧
      ((m.file .privatekey).isSome →
        ((op.exec programs input m p).1.file .privatekey).isSome) := by
  by_cases hpath : op.path? = some .privatekey
  · obtain rfl : op = .chmodKey := by
      cases op <;> simp_all [Op.path?]
    simp only [Op.exec, attempt_fst, Machine.chmodFile, Machine.key]
    cases hfile : m.file .privatekey <;> simp [hfile]
  · rw [Machine.key, Machine.key, file_exec_of_ne hpath]
    exact ⟨rfl, id⟩

theorem stage_cons (hop : op.isKeyOp = true) :
    Proc.stage ⟨op :: ops, pk, k⟩ = op :: ops.filter Op.isKeyOp := by simp [Proc.stage, hop]

/-- **A step of a run on its way to the public key.** -/
theorem Stage.exec (h : Stage programs m (Proc.stage ⟨op :: ops, pk, k⟩) k)
    (hq : (op.exec programs input m ⟨ops, pk, k⟩).2 = some q) :
    Stage programs (op.exec programs input m ⟨ops, pk, k⟩).1 q.stage q.publicKey := by
  have hops := ops_exec hq
  have hpublic := publicKey_exec hq
  by_cases hop : op.isKeyOp = true
  · obtain ⟨rest, hrest⟩ : ∃ rest, rest = ops.filter Op.isKeyOp := ⟨_, rfl⟩
    rw [stage_cons hop, ← hrest] at h
    cases h with
    | untested =>
      have hpublic : q.publicKey = none := hpublic
      rw [Proc.stage, hops, hpublic]
      by_cases hempty : m.key = []
      · rw [if_pos ⟨rfl, hempty⟩]
        simp only [List.filter_cons, ← hrest, Op.isKeyOp, if_true]
        exact .opening hempty
      · rw [if_neg fun h ↦ hempty h.2, ← hrest]
        exact .present hempty
    | opening hempty =>
      have hpublic : q.publicKey = none := hpublic
      have hops : q.ops = ops := hops
      rw [Proc.stage, hops, hpublic, ← hrest]
      obtain ⟨m', hm'⟩ : ∃ m', m.openFile 0o77 .privatekey = some m' := exists_of_attempt hq
      obtain ⟨-, rfl⟩ := openFile_eq_some.mp hm'
      simp only [Op.exec, attempt_fst, hm', Option.getD_some]
      exact .drawing (by simp [Machine.key]) (by simp)
    | drawing hempty hfile =>
      have hpublic : q.publicKey = none := hpublic
      have hops : q.ops = ops := hops
      rw [Proc.stage, hops, hpublic, ← hrest]
      obtain ⟨m', hm'⟩ := exists_of_attempt hq
      obtain ⟨hinput, rfl⟩ : input ≠ [] ∧ m.writeFile .privatekey input = m' := by
        simpa using hm'
      obtain ⟨f, hf⟩ := Option.isSome_iff_exists.mp hfile
      simp only [Op.exec, attempt_fst, hm', Option.getD_some]
      exact .present (by simpa [Machine.key, Machine.writeFile, hf] using hinput)
    | present hkey =>
      have hops : q.ops = ops := hops
      have hfile := isSome_of_key hkey
      rw [if_pos rfl, if_neg (by simp [Option.isSome_iff_ne_none.mp hfile])] at hpublic
      have hkey' : (Op.pubkey.exec programs input m ⟨ops, pk, none⟩).1.key = m.key :=
        (key_exec (by simp) (by simp)).1
      rw [Proc.stage, hops, hpublic, ← hrest, ← hkey']
      exact .returned (hkey' ▸ hkey)
  · have hstage : Proc.stage ⟨op :: ops, pk, k⟩ = ops.filter Op.isKeyOp := by
      simp [Proc.stage, hop]
    have hrest : q.ops = ops := by
      rw [hops, if_neg]
      rintro ⟨rfl, -⟩
      exact hop rfl
    have hsame : q.publicKey = k := by
      rw [hpublic, if_neg]
      rintro rfl
      exact hop rfl
    have hframe : (op.exec programs input m ⟨ops, pk, k⟩).1.key = m.key ∧ _ :=
      key_exec (by rintro rfl; exact hop rfl) (by rintro rfl; exact hop rfl)
    obtain ⟨hkey, hfile⟩ := hframe
    rw [Proc.stage, hrest, hsame, ← hstage]
    exact h.frame hkey hfile

end

/-! ## Runs -/

/-- A run finds no key when no other is between its own test and the key it draws. -/
def DrawsAlone (c : System) (e : ℕ × Action) : Prop :=
  ∀ p input, c.proc e.1 = some p → p.ops.head? = some .testKey → e.2 = .step input →
    c.shared.key = [] → ∀ j q, j ≠ e.1 → c.proc j = some q → Op.genkey ∉ q.ops

/-- Every run is at one of its stages, and one at most is about to draw a key. -/
structure KeyInv (programs : Programs) (c : System) : Prop where
  stages : ∀ i p, c.proc i = some p → Stage programs c.shared p.stage p.publicKey
  alone : ∀ i p j q, c.proc i = some p → c.proc j = some q → Op.genkey ∈ p.stage →
    Op.genkey ∈ q.stage → i = j

section

variable {programs : Programs} {c c' : System} {e : ℕ × Action}

theorem genkey_mem_stage {p : Proc} : Op.genkey ∈ p.stage ↔ Op.genkey ∈ p.ops := by
  simp [Proc.stage, Op.isKeyOp]

/-- Where the step of another run leaves a run. -/
theorem Stage.frame_exec {m : Machine} {s : List Op} {k k' : Option String} {op : Op} {p : Proc}
    {input : List Char} (h : Stage programs m s k)
    (hmover : Stage programs m (Proc.stage ⟨op :: p.ops, p.pk, k'⟩) k')
    (halone : Op.genkey ∈ Proc.stage ⟨op :: p.ops, p.pk, k'⟩ → Op.genkey ∉ s) :
    Stage programs (op.exec programs input m p).1 s k := by
  by_cases hop : op = .openKey ∨ op = .genkey
  · -- the mover is about to draw a key, so there is none
    have hempty : m.key = [] ∧ Op.genkey ∈ Proc.stage ⟨op :: p.ops, p.pk, k'⟩ := by
      obtain ⟨rest, hrest⟩ : ∃ rest, rest = p.ops.filter Op.isKeyOp := ⟨_, rfl⟩
      have hstage : Proc.stage ⟨op :: p.ops, p.pk, k'⟩ = op :: rest := by
        rw [hrest]
        rcases hop with rfl | rfl <;> exact stage_cons rfl
      rw [hstage] at hmover ⊢
      rcases hop with rfl | rfl
      · cases hmover with
        | opening hempty => exact ⟨hempty, by simp⟩
      · cases hmover with
        | drawing hempty => exact ⟨hempty, by simp⟩
    exact h.frame_of_empty hempty.1 (halone hempty.2)
  · rw [not_or] at hop
    have hframe : (op.exec programs input m p).1.key = m.key ∧ _ := key_exec hop.1 hop.2
    obtain ⟨hkey, hfile⟩ := hframe
    exact h.frame hkey hfile

/-- A run about to draw a key was so before, or has just found that there is none. -/
theorem genkey_of_exec {m : Machine} {op : Op} {p q : Proc} {input : List Char}
    (hq : (op.exec programs input m p).2 = some q) (h : Op.genkey ∈ q.stage) :
    op = .testKey ∧ m.key = [] ∨ Op.genkey ∈ p.ops := by
  rw [genkey_mem_stage, ops_exec hq] at h
  split at h
  · next htest => exact .inl htest
  · exact .inr h

theorem KeyInv.step (h : KeyInv programs c) (hok : DrawsAlone c e)
    (hstep : Config.step (act programs) c e = some c') : KeyInv programs c' := by
  obtain ⟨i, a⟩ := e
  obtain ⟨m', p', hact, rfl⟩ := Config.step_eq_some.mp hstep
  have hproc {j : ℕ} {q : Proc} (hq : Function.update c.proc i p' j = some q) :
      j = i ∧ p' = some q ∨ j ≠ i ∧ c.proc j = some q := by
    by_cases hj : j = i
    · subst hj
      exact .inl ⟨rfl, by simpa using hq⟩
    · exact .inr ⟨hj, by simpa [hj] using hq⟩
  rcases act_cases hact with ⟨job, -, -, rfl, rfl⟩ | ⟨input, op, ops, pk, k, rfl, hp, hexec⟩ |
    ⟨-, -, -, rfl, rfl⟩
  · have hnew : Op.genkey ∉ Proc.stage { ops := job.ops } := by
      rw [stage_ops]
      split <;> simp
    refine ⟨fun j q hq ↦ ?_, fun j q l r hq hr hgen hgen' ↦ ?_⟩
    · rcases hproc hq with ⟨-, hq⟩ | ⟨-, hq⟩
      · cases hq
        exact stage_job programs c.shared job
      · exact h.stages j q hq
    · rcases hproc hq with ⟨-, hq⟩ | ⟨-, hq⟩ <;> rcases hproc hr with ⟨-, hr⟩ | ⟨-, hr⟩
      · cases hq
        exact absurd hgen hnew
      · cases hq
        exact absurd hgen hnew
      · cases hr
        exact absurd hgen' hnew
      · exact h.alone j q l r hq hr hgen hgen'
  · have hmover := h.stages i _ hp
    obtain ⟨rfl, rfl⟩ : (op.exec programs input c.shared ⟨ops, pk, k⟩).1 = m' ∧
        (op.exec programs input c.shared ⟨ops, pk, k⟩).2 = p' := by
      rw [hexec]
      exact ⟨rfl, rfl⟩
    -- whoever is about to draw a key is the mover or finds the mover not to be
    have hlone {j : ℕ} {q r : Proc}
        (hq : (op.exec programs input c.shared ⟨ops, pk, k⟩).2 = some q)
        (hr : c.proc j = some r) (hj : j ≠ i) (hgen : Op.genkey ∈ q.stage) :
        Op.genkey ∉ r.stage := by
      intro hgen'
      rcases genkey_of_exec hq hgen with ⟨rfl, hempty⟩ | hmem
      · exact hok _ input hp rfl rfl hempty j r hj hr (genkey_mem_stage.mp hgen')
      · exact hj (h.alone j r i _ hr hp hgen' (genkey_mem_stage.mpr (by simp [hmem])))
    refine ⟨fun j q hq ↦ ?_, fun j q l r hq hr hgen hgen' ↦ ?_⟩
    · rcases hproc hq with ⟨-, hq⟩ | ⟨hj, hq⟩
      · exact hmover.exec hq
      · exact (h.stages j q hq).frame_exec (p := ⟨ops, pk, k⟩) hmover fun hgen hgen' ↦
          hj (h.alone j q i _ hq hp hgen' hgen)
    · rcases hproc hq with ⟨hj, hq⟩ | ⟨hj, hq⟩ <;> rcases hproc hr with ⟨hl, hr⟩ | ⟨hl, hr⟩
      · exact hj.trans hl.symm
      · exact absurd hgen' (hlone hq hr hl hgen)
      · exact absurd hgen (hlone hr hq hj hgen')
      · exact h.alone j q l r hq hr hgen hgen'
  · refine ⟨fun j q hq ↦ ?_, fun j q l r hq hr hgen hgen' ↦ ?_⟩
    · rcases hproc hq with ⟨-, hq⟩ | ⟨-, hq⟩
      · cases hq
      · exact h.stages j q hq
    · rcases hproc hq with ⟨-, hq⟩ | ⟨-, hq⟩ <;> rcases hproc hr with ⟨-, hr⟩ | ⟨-, hr⟩
      · cases hq
      · cases hq
      · cases hr
      · exact h.alone j q l r hq hr hgen hgen'

theorem keyInv_idle (programs : Programs) (m : Machine) : KeyInv programs m.idle where
  stages i p h := by cases h
  alone i p j q h := by cases h

/-- No step takes a key away. -/
theorem key_step (h : KeyInv programs c) (hstep : Config.step (act programs) c e = some c')
    (hkey : c.shared.key ≠ []) : c'.shared.key = c.shared.key := by
  obtain ⟨i, a⟩ := e
  obtain ⟨m', p', hact, rfl⟩ := Config.step_eq_some.mp hstep
  rcases act_cases hact with ⟨job, -, -, rfl, rfl⟩ | ⟨input, op, ops, pk, k, rfl, hp, hexec⟩ |
    ⟨-, -, -, rfl, rfl⟩
  · rfl
  · have hmover := h.stages i _ hp
    obtain rfl : (op.exec programs input c.shared ⟨ops, pk, k⟩).1 = m' := by rw [hexec]
    by_cases hop : op = .openKey ∨ op = .genkey
    · obtain ⟨rest, hrest⟩ : ∃ rest, rest = ops.filter Op.isKeyOp := ⟨_, rfl⟩
      rcases hop with rfl | rfl
      · rw [stage_cons rfl, ← hrest] at hmover
        cases hmover with
        | opening hempty => exact absurd hempty hkey
      · rw [stage_cons rfl, ← hrest] at hmover
        cases hmover with
        | drawing hempty => exact absurd hempty hkey
    · rw [not_or] at hop
      exact (key_exec hop.1 hop.2).1
  · rfl

/-- **The public key of a host is stable.**  Take any runs of `provision_server`,
`provision_client` and `reconfigure_server` on a host, in any order of their steps and each of them
cut at any point, in which no run finds the private key missing while another is about to write one.
Once there is a private key, it stays; and whichever public key any of the runs has got, at whatever
time, belongs to the private key that is there. -/
theorem public_key_stable {m : Machine} {as bs : List (ℕ × Action)}
    (hok : Run.Meets (Config.step (act programs)) DrawsAlone m.idle (as ++ bs))
    (h : run programs m.idle as = some c) (h' : run programs c bs = some c') :
    (c.shared.key ≠ [] → c'.shared.key = c.shared.key) ∧
      ∀ i p k, c'.proc i = some p → p.publicKey = some k →
        c'.shared.key ≠ [] ∧ k = PyStr.strip (String.ofList (programs.pubkey c'.shared.key)) := by
  have hinv : KeyInv programs c := Run.run_invariant (I := KeyInv programs)
    (fun _ _ _ hc hok hstep ↦ hc.step hok hstep) (keyInv_idle programs m) hok.left_of_append h
  obtain ⟨hinv', hkey⟩ : KeyInv programs c' ∧
      (c.shared.key ≠ [] → c'.shared.key = c.shared.key) :=
    Run.run_invariant (I := fun d ↦ KeyInv programs d ∧
        (c.shared.key ≠ [] → d.shared.key = c.shared.key))
      (fun d _ _ hd hok hstep ↦ ⟨hd.1.step hok hstep, fun hne ↦
        (key_step hd.1 hstep (by rwa [hd.2 hne])).trans (hd.2 hne)⟩)
      ⟨hinv, fun _ ↦ rfl⟩ (hok.of_append h) h'
  refine ⟨hkey, fun i p k hp hk ↦ ?_⟩
  have hstage := hinv'.stages i p hp
  rw [hk] at hstage
  obtain ⟨s, hs⟩ : ∃ s, s = p.stage := ⟨_, rfl⟩
  rw [← hs] at hstage
  cases hstage with
  | returned hne => exact ⟨hne, rfl⟩

end

/-- Runs that have the host to themselves draw alone. -/
theorem meets_drawsAlone {programs : Programs} {c : System} {i : ℕ} {as : List Action}
    (h : ∀ j, j ≠ i → c.proc j = none) :
    Run.Meets (Config.step (act programs)) DrawsAlone c (as.map fun a ↦ (i, a)) := by
  induction as generalizing c with
  | nil => trivial
  | cons a as ih =>
    refine ⟨?_, fun c' hstep ↦ ih fun j hj ↦ ?_⟩
    · intro p input _ _ _ _ j q hj hq
      rw [h j hj] at hq
      cases hq
    · obtain ⟨m', p', -, rfl⟩ := Config.step_eq_some.mp hstep
      simpa [hj] using h j hj

/-- A run that is cut when it has made the file for the key, and a second one. -/
def firstRun : List Action :=
  [.start exampleJob] ++ List.replicate 6 (.step exampleKey) ++ [.cut]

def secondRun : List Action := [.start exampleJob] ++ List.replicate 10 (.step exampleKey)

/-- The second run draws the key, since the first has not come to it, and whatever it returns
belongs to it. -/
theorem public_key_stable_twoRuns : ∃ c c' p,
    run examplePrograms freshHost.idle (firstRun.map fun a ↦ (0, a)) = some c ∧
    run examplePrograms c (secondRun.map fun a ↦ (0, a)) = some c' ∧ c.shared.key = [] ∧
    c'.shared.key = exampleKey ∧ c'.proc 0 = some p ∧ ∀ k, p.publicKey = some k →
      k = PyStr.strip (String.ofList (examplePrograms.pubkey exampleKey)) := by
  obtain ⟨c, hc⟩ : ∃ c, run examplePrograms freshHost.idle (firstRun.map fun a ↦ (0, a)) = some c ∧
    c.shared.key = [] := ⟨_, rfl, rfl⟩
  obtain ⟨c', p, hc', hkey, hp⟩ : ∃ c' p, (run examplePrograms freshHost.idle
      (firstRun.map fun a ↦ (0, a)) >>= fun c ↦ run examplePrograms c
        (secondRun.map fun a ↦ (0, a))) = some c' ∧ c'.shared.key = exampleKey ∧
      c'.proc 0 = some p := ⟨_, _, rfl, rfl, rfl⟩
  rw [hc.1, Option.bind_eq_bind, Option.bind_some] at hc'
  have hok : Run.Meets (Config.step (act examplePrograms)) DrawsAlone freshHost.idle
      ((firstRun.map fun a ↦ (0, a)) ++ secondRun.map fun a ↦ (0, a)) := by
    rw [← List.map_append]
    exact meets_drawsAlone fun _ _ ↦ rfl
  refine ⟨c, c', p, hc.1, hc', hc.2, hkey, hp, fun k hk ↦ ?_⟩
  rw [← hkey]
  exact ((public_key_stable hok hc.1 hc').2 0 p k hp hk).2

end WgManager.Host
