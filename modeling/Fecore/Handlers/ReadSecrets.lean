import Mathlib.Tactic.Common
import Fecore.Data.Words
import Fecore.Handlers.SecretMounts

set_option relaxedAutoImplicit false
set_option autoImplicit false

/-!
# The secrets that are read from mounts

`readSecretsFromMounts` of `pkg/provider/handlers/functions.go` reads the names of the secrets of a
container from where its mounts are. `createNativeReplica` has put them there by joining each name
to the directory of the secrets, and `validateSecret` has accepted the names before.

## Main definitions

* `Fecore.readSecretsFromMounts` — what is behind the directory of the secrets.

## Main results

* `Fecore.readSecrets_nativeMounts` — what is read from the mounts of a native replica.
* `Fecore.secretsReadBack_iff` — when all secrets are read back.
-/

namespace Fecore

/-- What a turn of the loop of `readSecretsFromMounts` appends. -/
def readSecret (mnt : OCIMount) : Option Str :=
  (List.splitOnWord "/var/openfaas/secrets/".toList mnt.destination)[1]?

/-- `readSecretsFromMounts` -/
def readSecretsFromMounts (mounts : List OCIMount) : List Str := mounts.filterMap readSecret

/-- Nothing is read from a mount that does not have the directory of the secrets on its way. -/
lemma readSecret_of_not_infix {destination : Str}
    (h : ¬ "/var/openfaas/secrets/".toList <:+: destination) (source : Str) :
    readSecret (roBind destination source) = none := by
  rw [readSecret, roBind, List.splitOnWord_of_not_infix h]
  rfl

/-- A name is read from a mount in the directory of the secrets. -/
lemma readSecret_of_name {secret : Str} (h : '/' ∉ secret) (source : Str) :
    readSecret (roBind (secretsDir ++ '/' :: secret) source) = some secret := by
  have hdir : secretsDir ++ ['/'] = "/var/openfaas/secrets/".toList := by decide
  have hnot : ¬ "/var/openfaas/secrets/".toList <:+: secret :=
    fun hoccurs => h (hoccurs.subset (by decide))
  rw [List.append_cons, hdir, readSecret, roBind, List.splitOnWord_append (by decide),
    List.splitOnWord_of_not_infix hnot]
  rfl

/-- **The mount of an accepted secret** is read as its name, unless this is `.`: then the directory
of the secrets itself is mounted.

**Proof sketch.** The names that `validateSecret` accepts are not empty, not `..`, and have no
slash. So `.` is the only one that `path.Join` does not just append. -/
lemma readSecret_join {secret : Str} (h : validateSecret { name := secret } = none)
    (source : Str) :
    readSecret (roBind (Path.join [secretsDir, secret]) source) =
      if secret = ".".toList then none else some secret := by
  obtain ⟨hnil, hdotdot, hslash⟩ := validateSecret_eq_none h
  split
  · next hdot =>
    subst hdot
    exact readSecret_of_not_infix (by decide) source
  · next hdot =>
    have hname : Path.ProperName secret := ⟨hnil, hdot, hdotdot, hslash⟩
    rw [Path.join_name (by decide) (by decide) hname]
    exact readSecret_of_name hslash source

/-- **What is read from the mounts of a native replica**: the secrets but `.`, in their order.

**Proof sketch.** The mounts of the operating system are not below the directory of the secrets. The
mount of a secret is read back as its name, and `.` is the directory itself (`readSecret_join`). -/
theorem readSecrets_nativeMounts (hosts_dir : Option Str) {fn : Function}
    (h : ∀ secret ∈ fn.secrets, validateSecret { name := secret } = none) :
    readSecretsFromMounts (nativeMounts hosts_dir fn) =
      fn.secrets.filter fun secret => decide (secret ≠ ".".toList) := by
  have hos : (getOSMounts hosts_dir).filterMap readSecret = [] := by
    rw [List.filterMap_eq_nil_iff]
    intro mnt hmnt
    simp only [getOSMounts, List.mem_cons, List.not_mem_nil, or_false] at hmnt
    rcases hmnt with rfl | rfl
    · exact readSecret_of_not_infix (by decide) _
    · exact readSecret_of_not_infix (by decide) _
  have hread : ∀ secret ∈ fn.secrets,
      (readSecret ∘ fun secret => roBind (Path.join [secretsDir, secret])
        (Path.join [fn.secretsPath, secret])) secret =
      Option.guard (fun secret => decide (secret ≠ ".".toList)) secret := by
    intro secret hsecret
    rw [Function.comp_apply, readSecret_join (h secret hsecret), Option.guard]
    by_cases hdot : secret = ".".toList
    · rw [if_pos hdot, if_neg (by simpa using hdot)]
    · rw [if_neg hdot, if_pos (by simpa using hdot)]
  rw [readSecretsFromMounts, nativeMounts, List.filterMap_append, hos, List.nil_append,
    List.filterMap_map, List.filterMap_congr hread, List.filterMap_eq_filter]

/-- **When all secrets are read back**: exactly when none of them is called `.`.

**Proof sketch.** All others are read in their order (`readSecrets_nativeMounts`). -/
theorem secretsReadBack_iff (hosts_dir : Option Str) (fn : Function)
    (h : ∀ secret ∈ fn.secrets, validateSecret { name := secret } = none) :
    readSecretsFromMounts (nativeMounts hosts_dir fn) = fn.secrets ↔
      ".".toList ∉ fn.secrets := by
  rw [readSecrets_nativeMounts hosts_dir h, List.filter_eq_self]
  simp only [decide_eq_true_eq]
  constructor
  · intro hall hdot
    exact hall _ hdot rfl
  · rintro hdot secret hsecret rfl
    exact hdot hsecret

/-- Two secrets are read back. -/
theorem secretsReadBack_iff_passwords :
    readSecretsFromMounts (nativeMounts none
        { exampleFunction with secrets := ["db.password".toList, ".db".toList] }) =
      ["db.password".toList, ".db".toList] ↔
    ".".toList ∉ ["db.password".toList, ".db".toList] :=
  secretsReadBack_iff none
    { exampleFunction with secrets := ["db.password".toList, ".db".toList] } (by decide)

/-- The secret `.` is accepted, and not read back. -/
theorem not_secretsReadBack :
    ¬ ∀ (hosts_dir : Option Str) (fn : Function),
      (∀ secret ∈ fn.secrets, validateSecret { name := secret } = none) →
        readSecretsFromMounts (nativeMounts hosts_dir fn) = fn.secrets := by
  intro h
  have hread := h none { exampleFunction with secrets := [".".toList] } (by decide)
  rw [readSecrets_nativeMounts none (by decide)] at hread
  exact absurd hread (by decide)

end Fecore
