import AccessTrace.Proofs.Host.Serving
import AccessTrace.Proofs.Session.Translation
import AccessTrace.Proofs.FastPath.Blocks

/-!
# A tracer in its host

Setting up a tracer registers its flush routine and installs the code that calls it, as the last
piece of shared code. From then on the code of every translated block finds the way to the routine
and back.
-/

namespace AccessTrace

namespace Tracer

open CodeCache (blockFragment)

variable {ω : Type} {t : Tracer ω} {before h : TracerHost ω} {usesCounter : Bool}

/-- What a tracer has added to a host. -/
structure Installed (t : Tracer ω) (before h : TracerHost ω) : Prop where
  spaced : h.Spaced
  address : t.routine.address < addressBound
  shared : ∃ image : CodeImage, max image.bytes.length 1 = t.routine.length ∧
    h.shared = before.shared ++ [⟨t.routine.address, image, ⟨t.routine.address,
      ((FlushRoutine.body ⟨.ofNat before.routines.size⟩).map Node.injected).toArray⟩⟩]
  number : before.routines.size < 2 ^ 32
  routines : h.routines = before.routines.push (flushRoutine t.field)
  field : t.injector.field = t.field
  flushAddress : t.injector.flushAddress = UInt64.ofNat t.routine.address
  stepLimit : h.stepLimit = before.stepLimit

/-- A tracer that could be set up calls the routine that it registered and installed. -/
theorem init_steps {config : Config ω} {world : ω} (hok : init before config world = .ok (t, h)) :
    ∃ routine, FlushRoutine.install
        (before.registerField.2.registerRoutine (flushRoutine before.registerField.1)).2
        (before.registerField.2.registerRoutine (flushRoutine before.registerField.1)).1 =
          .ok (routine, h) ∧
      t = ⟨config, before.registerField.1, routine, ⟨before.registerField.1,
        UInt64.ofNat routine.address,
        OverflowTest.select h.hasCounterTest config.prefersCounterTest⟩⟩ := by
  unfold init at hok
  cases hvalid : config.validate world with
  | error e =>
    rw [hvalid] at hok
    contradiction
  | ok _ =>
    rw [hvalid] at hok
    let withField := before.registerField
    let withRoutine := withField.2.registerRoutine (flushRoutine withField.1)
    change ((FlushRoutine.install withRoutine.2 withRoutine.1).mapError TraceError.flushRoutine >>=
      fun installed => pure ((⟨config, withField.1, installed.1, ⟨withField.1,
        UInt64.ofNat installed.1.address,
        OverflowTest.select installed.2.hasCounterTest config.prefersCounterTest⟩⟩ : Tracer ω),
        installed.2)) = _ at hok
    cases hinstall : FlushRoutine.install withRoutine.2 withRoutine.1 with
    | error e =>
      rw [hinstall] at hok
      contradiction
    | ok installed =>
      obtain ⟨routine, h₁⟩ := installed
      rw [hinstall] at hok
      injection hok with hok
      injection hok with ht hh
      subst ht
      subst hh
      exact ⟨routine, rfl, rfl⟩

theorem init_ok {config : Config ω} {world : ω} (hbefore : before.Sound)
    (hok : init before config world = .ok (t, h)) :
    t.Installed before h ∧ t.config = config ∧ ∃ usesCounter, t.injector.Uses usesCounter := by
  obtain ⟨routine, hinstall, rfl⟩ := init_steps hok
  obtain ⟨image, hroutine, hhost⟩ := FlushRoutine.install_ok hinstall
  have hnext : routine.address = before.nextSharedAddress := by
    rw [hroutine]
    rfl
  refine ⟨⟨?_, ?_, ⟨image, ?_, ?_⟩, hbefore.number, ?_, rfl, rfl, ?_⟩, rfl, ?_⟩
  · rw [hhost]
    exact (hbefore.toSpaced.registerField.registerRoutine _).append hnext rfl
  · change routine.address < addressBound
    rw [hnext]
    exact hbefore.address
  · rw [hroutine]
  · rw [hhost]
    rfl
  · rw [hhost]
    rfl
  · rw [hhost]
    rfl
  · exact ⟨h.hasCounterTest && config.prefersCounterTest, rfl⟩

/-- As long as a host keeps the code of the flush routine, it can be taken away again. -/
theorem uninstall_of_init {config : Config ω} {world : ω} {later : TracerHost ω}
    (hok : init before config world = .ok (t, h)) (hkept : h.shared ⊆ later.shared) :
    ∃ after, later.uninstall t.routine.address = .ok after := by
  obtain ⟨routine, hinstall, rfl⟩ := init_steps hok
  obtain ⟨image, _, hhost⟩ := FlushRoutine.install_ok hinstall
  obtain ⟨code, hcode, haddress⟩ : ∃ code ∈ h.shared, code.address = routine.address := by
    rw [hhost]
    exact ⟨_, List.mem_append_right _ (List.mem_singleton_self _), rfl⟩
  have hshared : later.shared.any (·.address == routine.address) = true :=
    List.any_eq_true.2 ⟨code, hkept hcode, beq_iff_eq.2 haddress⟩
  exact ⟨_, if_pos hshared⟩

variable {code : Block → List Node} {all done : List Block} {b : Block} {c : CodeCache} {base : Nat}

/-- The flush routine can be called from every block, and comes back. -/
theorem Installed.flushes (ht : t.Installed before h) (hc : c.Serves h.shared code all done)
    (hend : c.nextBase ≤ sharedCodeBase) (hfragment : blockFragment code base b ∈ c.fragments)
    (hbelow : base + (blockFragment code base b).span ≤ c.nextBase) :
    Injector.Flushes ⟨c, h.routines, h.stepLimit⟩ t.injector (blockFragment code base b) := by
  obtain ⟨image, _, hshared⟩ := ht.shared
  let id : RoutineId := ⟨.ofNat before.routines.size⟩
  let g : Fragment := ⟨t.routine.address, ((FlushRoutine.body id).map Node.injected).toArray⟩
  have hid : id.number.toNat = before.routines.size := UInt32.toNat_ofNat_of_lt' ht.number
  refine ⟨⟨g, id, ?_, ?_, ?_⟩, fun index hindex => ⟨?_, ?_⟩⟩
  · have hspan : g.span ≤ sharedCodeSpan := by
      change 2 * nodeStride ≤ sharedCodeSpan
      decide
    rw [ht.flushAddress, UInt64.toNat_ofNat_of_lt' ht.address]
    exact hc.lookup_shared ht.spaced hend (s := ⟨t.routine.address, image, g⟩)
      (by rw [hshared]; simp [g, id]) hspan
  · exact Fragment.has_toArray _ _
  · rw [ht.routines, ht.field, hid]
    exact Array.getElem?_push_size
  · have harea : sharedCodeBase < addressBound := by decide
    have hspan : index * nodeStride < (blockFragment code base b).span :=
      Nat.mul_lt_mul_of_pos_right
        (show index < max (blockFragment code base b).nodes.size 1 by omega) (by decide)
    have haddress : (blockFragment code base b).addressOf index = base + index * nodeStride := rfl
    omega
  · exact hc.lookup_block hfragment hbelow index (by omega)

end Tracer

end AccessTrace
