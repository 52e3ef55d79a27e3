import DetBuilds.Lib.BoundedMap
import DetBuilds.Lib.ByteMem
import DetBuilds.Lib.History
import DetBuilds.Lib.Keyed
import DetBuilds.Bpf.Kernel
import DetBuilds.Bpf.Common
import DetBuilds.Bpf.ModifyTime
import DetBuilds.Bpf.ModifyFileTimestamp
import DetBuilds.Bpf.ModifyFileName
import DetBuilds.Bpf.ModifyFileRead
import DetBuilds.Bpf.PreloadFilter
import DetBuilds.Bpf.Joint
import DetBuilds.Bpf.Threads
import DetBuilds.Bpf.Files
import DetBuilds.Bpf.Attach
import DetBuilds.Bpf.Proof.HandOff
import DetBuilds.Bpf.TwoRuns
import DetBuilds.Bpf.Proof.Clock
import DetBuilds.Bpf.Proof.OwnKeys
import DetBuilds.Bpf.Proof.Isolation
import DetBuilds.Bpf.Proof.Marking
import DetBuilds.Bpf.Proof.FileRead
import DetBuilds.Bpf.Proof.Preload
import DetBuilds.Bpf.Proof.Scope
import DetBuilds.Bpf.Proof.Order
import DetBuilds.Bpf.Proof.Failure
import DetBuilds.Bpf.Proof.Exhaustion
import DetBuilds.Bpf.Proof.Window
import DetBuilds.Bpf.Proof.Localtime
import DetBuilds.Lib.CString
import DetBuilds.Bpf.Proof.Overflow
import DetBuilds.Preload.Install
import DetBuilds.Bpf.Proof.Timestamps
import DetBuilds.Bpf.Proof.SourceName
import DetBuilds.Bpf.Proof.Paths
import DetBuilds.Bpf.Proof.PreloadPath
import DetBuilds.Bpf.Proof.Trigger
import DetBuilds.Bpf.Proof.Zone
import DetBuilds.Preload.Time
import DetBuilds.Preload.Channels
import DetBuilds.Lib.Substitute
import DetBuilds.Grub.TurnOffVdso
import DetBuilds.Grub.Effect
import DetBuilds.Grub.Files
import DetBuilds.Grub.Backup
import DetBuilds.Grub.Preview
import DetBuilds.Bpf.System
import DetBuilds.Bpf.Spec
import DetBuilds.Bpf.Proof.Product
import DetBuilds.Bpf.Proof.Refine
import DetBuilds.Bpf.Client
import DetBuilds.Bpf.Proof.Determinism
import DetBuilds.Bpf.Proof.Confine
import DetBuilds.Loader.Main
import DetBuilds.Loader.Proof.Conformance
import DetBuilds.Loader.Proof.Ending
import DetBuilds.Loader.Life
import DetBuilds.Loader.Proof.Provenance
import DetBuilds.Scripts.StartStop
import DetBuilds.Scripts.Proof.Stop
import DetBuilds.Scripts.Proof.Sane
import DetBuilds.Loader.Live
import DetBuilds.Loader.Proof.Live
import DetBuilds.Loader.Build
import DetBuilds.Loader.Proof.Build
import DetBuilds.Grub.BackupLog
import DetBuilds.Loader.Proof.AttachWindow
import DetBuilds.Loader.Proof.Serving
import DetBuilds.Scripts.Proof.Wedge
import DetBuilds.Bpf.Proof.Copies
import DetBuilds.Lib.Shell
import DetBuilds.Lib.ShellGaps
