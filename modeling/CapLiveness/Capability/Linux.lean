import CapLiveness.Capability.Enumeration

/-!
# The Linux capabilities

The enumeration of the Linux kernel's capabilities, numbered as the kernel
numbers them: from `CAP_CHOWN`, kind 0, to `CAP_CHECKPOINT_RESTORE`, kind 40.
-/

set_option autoImplicit false

namespace CapLiveness.Enumeration

/-- The names of the Linux capabilities in the order of their numbers. -/
def linuxNames : List String := [
  "CAP_CHOWN", "CAP_DAC_OVERRIDE", "CAP_DAC_READ_SEARCH", "CAP_FOWNER", "CAP_FSETID",
  "CAP_KILL", "CAP_SETGID", "CAP_SETUID", "CAP_SETPCAP", "CAP_LINUX_IMMUTABLE",
  "CAP_NET_BIND_SERVICE", "CAP_NET_BROADCAST", "CAP_NET_ADMIN", "CAP_NET_RAW",
  "CAP_IPC_LOCK", "CAP_IPC_OWNER", "CAP_SYS_MODULE", "CAP_SYS_RAWIO", "CAP_SYS_CHROOT",
  "CAP_SYS_PTRACE", "CAP_SYS_PACCT", "CAP_SYS_ADMIN", "CAP_SYS_BOOT", "CAP_SYS_NICE",
  "CAP_SYS_RESOURCE", "CAP_SYS_TIME", "CAP_SYS_TTY_CONFIG", "CAP_MKNOD", "CAP_LEASE",
  "CAP_AUDIT_WRITE", "CAP_AUDIT_CONTROL", "CAP_SETFCAP", "CAP_MAC_OVERRIDE",
  "CAP_MAC_ADMIN", "CAP_SYSLOG", "CAP_WAKE_ALARM", "CAP_BLOCK_SUSPEND", "CAP_AUDIT_READ",
  "CAP_PERFMON", "CAP_BPF", "CAP_CHECKPOINT_RESTORE"]

/-- The name under which a program asks for the Linux capabilities. -/
def linuxLabel : String := "linux"

/-- The enumeration of the Linux capabilities. -/
def linux : Enumeration :=
  .ofFaultless linuxNames (some linuxLabel) (by decide) (by decide +kernel)

end CapLiveness.Enumeration
