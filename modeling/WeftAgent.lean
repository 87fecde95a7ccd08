import WeftAgent.Go.Basic
import WeftAgent.Go.Slice
import WeftAgent.Go.Spaces
import WeftAgent.Go.Filepath
import WeftAgent.Go.Proofs.FilepathProofs
import WeftAgent.Trace.Along
import WeftAgent.Sshd.Server
import WeftAgent.Sshd.Proofs.ServerProofs
import WeftAgent.ExecSession.Sessions
import WeftAgent.ExecSession.Proofs.SessionsProofs
import WeftAgent.Effect.Prog
import WeftAgent.Fs.Tree
import WeftAgent.Fs.Calls
import WeftAgent.Properties.Properties
import WeftAgent.Fs.Proofs.CallsProofs
import WeftAgent.Fs.Faults
import WeftAgent.Fs.Proofs.FaultsProofs
import WeftAgent.Properties.Proofs.KeyProofs
import WeftAgent.Properties.Proofs.LoopProofs
import WeftAgent.Properties.Proofs.ContainmentProofs
import WeftAgent.Properties.Proofs.PruneProofs
import WeftAgent.Properties.Proofs.SyncProofs
import WeftAgent.Properties.Proofs.MirrorProofs
import WeftAgent.Properties.Proofs.ConvergenceProofs
import WeftAgent.Boot.Boot
import WeftAgent.Properties.Proofs.ProvenanceProofs
import WeftAgent.Boot.Proofs.BootProofs
import WeftAgent.Boot.Proofs.RoundProofs
import WeftAgent.SshKeys.AuthorizedKey
import WeftAgent.SshKeys.SshKeys
import WeftAgent.Sshd.AuthStore
import WeftAgent.SshKeys.Proofs.AuthorizedKeyProofs
import WeftAgent.Sshd.Proofs.AuthStoreProofs
import WeftAgent.Sshd.Proofs.LatestSetProofs
import WeftAgent.Pod.Containers
import WeftAgent.Containers.Reconciler
import WeftAgent.Containers.Runtime
import WeftAgent.Containers.Proofs.ReconcilerProofs
import WeftAgent.Containers.Proofs.ConvergenceProofs
import WeftAgent.Containers.Crun
import WeftAgent.Containers.Proofs.CrunProofs
import WeftAgent.Effect.Protocol
import WeftAgent.Nats.Subject
import WeftAgent.Nats.Stream
import WeftAgent.ExecSession.Pump
import WeftAgent.ExecSession.Proofs.PumpProofs
import WeftAgent.ExecSession.Proofs.PumpOutputProofs
import WeftAgent.ExecSession.Proofs.IsolationProofs
import WeftAgent.Sshd.Shell
import WeftAgent.Sshd.Proofs.ShellProofs
import WeftAgent.Go.Float
import WeftAgent.Metrics.Recorder
import WeftAgent.FirewallStatus.Emitter
import WeftAgent.FirewallStatus.Proofs.DropsProofs
import WeftAgent.Mounts.Mounts
import WeftAgent.Mounts.Proofs.ReplayProofs
import WeftAgent.Boot.Runner
import WeftAgent.Boot.Proofs.RunnerProofs
import WeftAgent.Boot.Watcher
import WeftAgent.Boot.Proofs.WatcherProofs
import WeftAgent.Boot.Git
import WeftAgent.Boot.Proofs.RetryProofs
import WeftAgent.SshKeys.Subscriber
import WeftAgent.SshKeys.Proofs.SubscriberProofs
import WeftAgent.Sshd.Proofs.SessionProofs
import WeftAgent.Effect.Loop
import WeftAgent.Containers.Runs
import WeftAgent.Containers.Proofs.TraceProofs
import WeftAgent.Containers.Proofs.IsolationProofs
import WeftAgent.Containers.Proofs.RestartProofs
import WeftAgent.Containers.Subscriber
import WeftAgent.Guestplane.Control
import WeftAgent.Guestplane.Dispatcher
import WeftAgent.Guestplane.Proofs.DispatcherProofs
import WeftAgent.Guestplane.Client
import WeftAgent.Guestplane.Proofs.ClientProofs
import WeftAgent.Guestplane.Proofs.OverlapProofs
import WeftAgent.ExecSession.Supersession
import WeftAgent.ExecSession.Proofs.SupersessionProofs
import WeftAgent.ExecSession.Proofs.RegistryProofs
import WeftAgent.ExecSession.Operations
import WeftAgent.ExecSession.Proofs.OperationsProofs
import WeftAgent.Sshd.Wire
import WeftAgent.Sshd.Proofs.WireProofs
import WeftAgent.Sshd.Proofs.RefusalProofs
import WeftAgent.Sshd.Window
import WeftAgent.Sshd.Proofs.WindowProofs
import WeftAgent.Containers.Proofs.RepublishProofs
import WeftAgent.Go.Proofs.FloatProofs
import WeftAgent.FirewallStatus.Accounting
import WeftAgent.FirewallStatus.Proofs.AccountingProofs
import WeftAgent.Effect.Restart
import WeftAgent.Sshd.HostKey
import WeftAgent.Sshd.Proofs.HostKeyProofs
import WeftAgent.Mounts.Shutdown
import WeftAgent.Mounts.Proofs.ShutdownProofs
import WeftAgent.Properties.Proofs.TurnProofs
import WeftAgent.Properties.Proofs.AtomicityProofs
import WeftAgent.Go.Environ
import WeftAgent.Go.Proofs.EnvironProofs
import WeftAgent.ExecSession.Proofs.EnvironmentProofs
import WeftAgent.Containers.Proofs.RootfsProofs
import WeftAgent.Go.Strconv
import WeftAgent.Go.Proofs.StrconvProofs
import WeftAgent.Go.Strings
import WeftAgent.Go.Proofs.SpacesProofs
import WeftAgent.Procps.Stat
import WeftAgent.Procps.Proofs.StatProofs
import WeftAgent.Go.Bytes
import WeftAgent.Go.Netip
import WeftAgent.Go.Proofs.NetipProofs
import WeftAgent.Nft.Ruleset
import WeftAgent.Nft.Netlink
import WeftAgent.Nft.Kernel
import WeftAgent.Nft.Matching
import WeftAgent.Nft.Runs
import WeftAgent.Nft.Reference
import WeftAgent.PacketFilter.Rules
import WeftAgent.PacketFilter.Policy
import WeftAgent.PacketFilter.Apply
import WeftAgent.PacketFilter.Status
import WeftAgent.PacketFilter.Proofs.CompileProofs
import WeftAgent.PacketFilter.Proofs.TableProofs
import WeftAgent.PacketFilter.Proofs.ApplyProofs
import WeftAgent.PacketFilter.Proofs.StatusProofs
import WeftAgent.PacketFilter.Proofs.RefinementProofs
import WeftAgent.Effect.Bound
import WeftAgent.Sshd.Userauth
import WeftAgent.Sshd.Connections
import WeftAgent.Sshd.Proofs.UserauthProofs
import WeftAgent.Sshd.Proofs.AdmissionProofs
import WeftAgent.Sshd.Proofs.ConnectionsProofs
