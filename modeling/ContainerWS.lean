import ContainerWS.Interleaving
import ContainerWS.Install.Queue
import ContainerWS.Host
import ContainerWS.Install.Requests
import ContainerWS.Install.Worker
import ContainerWS.System
import ContainerWS.Install.Wakeup
import ContainerWS.Install.Settled
import ContainerWS.Install.Ledger
import ContainerWS.Install.SingleJob
import ContainerWS.PackageManager
import ContainerWS.Install.UninstallWins
import ContainerWS.Install.Dedup
import ContainerWS.Vnc.SingleFlight
import ContainerWS.JobLog.Goroutines
import ContainerWS.JobLog.Shape
import ContainerWS.JobLog.Replay
import ContainerWS.JobLog.TerminalEvent
import ContainerWS.JobLog.Persist
import ContainerWS.Vnc.Release
import ContainerWS.Environments.Names
import ContainerWS.SoftDelete
import ContainerWS.Environments.Rows
import ContainerWS.Environments.History
import ContainerWS.Environments.Sync
import ContainerWS.Environments.ServerConfig
import ContainerWS.Environments.Watcher
import ContainerWS.Environments.BootSync
import ContainerWS.Environments.Cursors
import ContainerWS.Calls
import ContainerWS.Files.Across
import ContainerWS.Files.KeepsFiles
import ContainerWS.Proxy.Fiber
import ContainerWS.Frontend.Network
import ContainerWS.Proxy.Traefik
import ContainerWS.Docker.Create
import ContainerWS.Docker.EditPage
import ContainerWS.Frontend.SignOut
import ContainerWS.Docker.EditedPorts
import ContainerWS.Docker.Resubmit
import ContainerWS.Nginx
import ContainerWS.Proxy.Backends
import ContainerWS.Base64
import ContainerWS.Decimals
import ContainerWS.Disk
import ContainerWS.Docker.ExecSession
import ContainerWS.Docker.ExecShutdown
import ContainerWS.Fallible
import ContainerWS.Frames
import ContainerWS.GoMap
import ContainerWS.Kubernetes.Ingresses
import ContainerWS.Kubernetes.ManifestScopes
import ContainerWS.Kubernetes.Secrets
import ContainerWS.LinuxUser
import ContainerWS.Proxy.Apply
import ContainerWS.Proxy.DirtyFlag
import ContainerWS.Proxy.Preview
import ContainerWS.SoftwarePkg.Fetch
import ContainerWS.SoftwarePkg.Scaffold
import ContainerWS.Vnc.PortMap
import ContainerWS.Vnc.PortOwners
import ContainerWS.CloudShell.Resume
import ContainerWS.CloudShell.Durable
import ContainerWS.CloudShell.Idle
import ContainerWS.Accounts
import ContainerWS.Authorization.SignIn
import ContainerWS.Brew.Switch
import ContainerWS.Brew.Waits
import ContainerWS.CloudShell.Account
import ContainerWS.Brew.Listed
import ContainerWS.Brew.Ownership
import ContainerWS.Memo
import ContainerWS.SoftwarePkg.Catalog
import ContainerWS.Softwares.Latest
import ContainerWS.Docker.Clients
import ContainerWS.Docker.DefaultEnvironment
import ContainerWS.Docker.SameDaemon
import ContainerWS.Docker.StackCombinations
import ContainerWS.Docker.StackProjects
import ContainerWS.Fairness
import ContainerWS.JobLog.Unsubscribe
import ContainerWS.Kubernetes.Applications
import ContainerWS.Kubernetes.ManifestRewrite
import ContainerWS.Kubernetes.Registry
import ContainerWS.Kubernetes.RegistryActive
import ContainerWS.Kubernetes.RegistrySettings
import ContainerWS.Kubernetes.Revisions
import ContainerWS.Mcp.Listeners
import ContainerWS.Best
import ContainerWS.Environments.Fingerprint
import ContainerWS.LinuxUser.AuthorizedKeys
import ContainerWS.LinuxUser.Identity
import ContainerWS.LinuxUser.RemovedKeys
import ContainerWS.SoftwarePkg.NoInstall
import ContainerWS.Softwares.Matching
import ContainerWS.Softwares.Specificity
import ContainerWS.ThreeWay
import ContainerWS.Update.Apply
import ContainerWS.Update.Releases
import ContainerWS.Files.Archive
import ContainerWS.Proxy.ForcedSSL
import ContainerWS.Proxy.HostLocations
import ContainerWS.Files.Ends
import ContainerWS.GoURL
import ContainerWS.Proxy.TargetURL
import ContainerWS.ShellWords
import ContainerWS.SoftwarePkg.Scripts
import ContainerWS.Masked
import ContainerWS.SoftwarePkg.Publish
import ContainerWS.Update.Precedence
import ContainerWS.Mcp.ReadFile
import ContainerWS.CodeServer.Folder
import ContainerWS.Docker.EnvFile
import ContainerWS.GoQuote
import ContainerWS.XPath
import ContainerWS.Mcp.Selectors
import ContainerWS.CodeServer.Paths
import ContainerWS.Docker.Logs
import ContainerWS.Frontend.Attempts
import ContainerWS.CloudShell.Replay
import ContainerWS.CodeServer.Clone
import ContainerWS.General.Navigations
import ContainerWS.Mcp.Find
import ContainerWS.Mcp.Settings
import ContainerWS.Softwares.Listing
import ContainerWS.Vnc.Tokens
import ContainerWS.Grouping
import ContainerWS.Machine.Gpus
import ContainerWS.Usersync
import ContainerWS.Kubernetes.ManifestDocuments
import ContainerWS.GoGlob
import ContainerWS.Mcp.Search
import ContainerWS.Docker.Templates
import ContainerWS.Docker.ExecCommand
import ContainerWS.FanOut
import ContainerWS.Files.Purge
import ContainerWS.Settings.Options
import ContainerWS.Softwares.Reconcile
import ContainerWS.Vnc.XrdpIni
