import Moduless.Gateway.Body
import Moduless.Gateway.Identity
import Moduless.Interaction.Schedule
import Moduless.System.OwnKeys

/-!
The identity a backend is told, and who may set it.

What is registered with filters was made from a package in the plugin's directory,
and it may set identities exactly if the package's manifest holds
`filter:authenticate`. With this the provenance of an identity is a statement about
manifests.
-/

namespace Moduless.PluginHost
open Go Pipeline Interaction

/-- The registration was made from a package loaded from the plugin's directory, or it has
no declarations. -/
def Registration.Packaged (dir key : Str) (reg : Registration) : Prop :=
  reg = bareRegistration key reg.instances ∨
    ∃ pkg : Package, pkg.LoadedFrom (joinPath [dir, key]) ∧
      reg = pkg.registration key reg.instances ∧
      reg.allowIdentityMutation = pkg.manifest.hasPermission permFilterAuthenticate

def Registry.Packaged (dir : Str) (r : Registry) : Prop :=
  ∀ key reg, r.regs.get key = some reg → reg.Packaged dir key

theorem Registry.Packaged.install {dir : Str} {r : Registry} (h : r.Packaged dir)
    {reg : Registration} (hReg : reg.Packaged dir reg.key) {order : List Str}
    (hOrder : order.Perm (register r.regs reg).keys) :
    (r.installPlugin reg order hOrder).2.Packaged dir := by
  intro key reg' hGet
  have hRegister : (register r.regs reg).get key = some reg' := hGet
  rw [get_register] at hRegister
  split_ifs at hRegister with hKey
  · exact Option.some.inj hRegister ▸ hKey ▸ hReg
  · exact h key reg' hRegister

end Moduless.PluginHost

namespace Moduless
open Go Gateway Pipeline PluginHost Interaction Discipline

end Moduless
